import LinuxAdvance.Http.Request

/-!
# `HttpResponse`

`_status_code` has no value until `ADDStatusLine` gives it one; `Serialize`
writes whatever is there.
-/

namespace LinuxAdvance.Http

open LinuxAdvance.Foundation
open LinuxAdvance.Cxx

structure HttpResponse where
  statusCode : Option Int32 := none
  desc : Bytes := []
  version : Bytes := httpVersion
  respHeader : List Bytes := []
  respText : Bytes := []
  headerskv : UnorderedMap Bytes Bytes := ∅

namespace HttpResponse

def addStatusLine (resp : HttpResponse) (statusCode : Int32) (desc : Bytes) :
    HttpResponse :=
  { resp with statusCode := some statusCode, desc }

def addHeader (resp : HttpResponse) (k v : Bytes) : HttpResponse :=
  { resp with headerskv := resp.headerskv.insert k v }

def addText (resp : HttpResponse) (text : Bytes) : HttpResponse :=
  { resp with respText := text }

def statusValue (resp : HttpResponse) (junk : Int32) : Int32 :=
  resp.statusCode.getD junk

/-- The header lines stay in the response. -/
def serialize (resp : HttpResponse) (junk : Int32)
    (order : UnorderedMap.Order resp.headerskv) : HttpResponse × Bytes :=
  let statusLine := resp.version ++ space ++
    intToString (resp.statusValue junk).toInt ++ space ++ resp.desc ++ sep
  let respHeader := resp.respHeader ++
    order.val.map fun header => header.1 ++ reqHeaderSep ++ header.2
  ({ resp with respHeader },
    statusLine ++ respHeader.flatMap (· ++ sep) ++ sep ++ resp.respText)

section Fields

variable (resp : HttpResponse) (code : Int32) (desc k v t : Bytes)

@[simp] theorem statusCode_addStatusLine :
    (resp.addStatusLine code desc).statusCode = some code := rfl

@[simp] theorem statusCode_addHeader :
    (resp.addHeader k v).statusCode = resp.statusCode := rfl

@[simp] theorem statusCode_addText :
    (resp.addText t).statusCode = resp.statusCode := rfl

end Fields

end HttpResponse

end LinuxAdvance.Http
