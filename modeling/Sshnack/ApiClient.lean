import Sshnack.RequestText
import Sshnack.Handlers
import Sshnack.TuiApp

/-!
# The requests of the client

What the functions of `api_client.c` hand to libcurl, and the messages that libcurl may send for it.
The order of the headers, the headers of its own and the HTTP version are up to libcurl; it sends the
given headers as they are, and no header of a name for which one is given. The reading of the answers
is in `ApiAnswers`.
-/

namespace Sshnack.Tui

/-- `api_client_t`, with the strings that fit its arrays. -/
structure ApiClient where
  baseUrl : CString
  userId : Int32
  adminToken : CString
  baseUrl_fits : baseUrl.length ≤ 255
  adminToken_fits : adminToken.length ≤ 127

def apiClientInit (baseUrl : CString) (userId : Int32) (adminToken : CString) : ApiClient where
  baseUrl := baseUrl.take 255
  userId := userId
  adminToken := adminToken.take 127
  baseUrl_fits := List.length_take_le 255 baseUrl
  adminToken_fits := List.length_take_le 127 adminToken

/-- The options of one transfer. -/
structure CurlOptions where
  url : CString
  method : CString
  postFields : Option CString
  httpHeader : List CString
  deriving DecidableEq

def CurlOptions.body (o : CurlOptions) : CString := o.postFields.getD []

def doRequest (c : ApiClient) (method path : CString) (body : Option CString) (useAdmin : Bool) :
    CurlOptions where
  url := snprintf 512 (c.baseUrl ++ path)
  method := method
  postFields :=
    if method = ascii "GET" then none
    else if method = ascii "POST" then some (body.getD [])
    else body
  httpHeader :=
    snprintf 200 (ascii "Authorization: Bearer " ++
      if useAdmin then c.adminToken else formatInt c.userId) ::
    if body.isSome then [ascii "Content-Type: application/json"] else []

/-- A body with one number, written into 64 bytes. -/
def jsonNumber (key : String) (x : Int32) : CString := snprintf 64 (numberBody key x)

def apiGetStock (c : ApiClient) : CurlOptions :=
  doRequest c (ascii "GET") (ascii "/stock") none false

def apiGetBalance (c : ApiClient) : CurlOptions :=
  doRequest c (ascii "GET") (ascii "/balance") none false

def apiDeposit (c : ApiClient) (amountGr : Int32) : CurlOptions :=
  doRequest c (ascii "POST") (ascii "/balance") (some (jsonNumber "amount_gr" amountGr)) false

def apiPurchase (c : ApiClient) (slotId : Int32) : CurlOptions :=
  doRequest c (ascii "POST") (ascii "/orders") (some (jsonNumber "slot_id" slotId)) false

def apiRefund (c : ApiClient) : CurlOptions :=
  doRequest c (ascii "DELETE") (ascii "/balance") none false

def apiRestock (c : ApiClient) (slotId qty : Int32) : CurlOptions :=
  doRequest c (ascii "PATCH") (snprintf 64 (ascii "/stock/" ++ formatInt slotId))
    (some (jsonNumber "qty" qty)) true

def apiSetPrice (c : ApiClient) (itemId priceGr : Int32) : CurlOptions :=
  doRequest c (ascii "PATCH") (snprintf 64 (ascii "/items/" ++ formatInt itemId))
    (some (jsonNumber "price_gr" priceGr)) true

def ApiCall.options (c : ApiClient) : ApiCall → CurlOptions
  | .getStock => apiGetStock c
  | .getBalance => apiGetBalance c
  | .deposit amountGr => apiDeposit c amountGr
  | .purchase slotId => apiPurchase c slotId
  | .refund => apiRefund c
  | .restock slotId qty => apiRestock c slotId qty
  | .setPrice itemId priceGr => apiSetPrice c itemId priceGr

/-- A header line with the credentials. -/
def IsAuthorization (line : CString) : Prop := (line.take 14).map toLower = ascii "authorization:"

/-- A message that libcurl sends for some options; `origin` is the URL without its path. -/
structure CurlMessage (origin : CString) (o : CurlOptions) where
  target : CString
  version : CString
  headers : List CString
  url_eq : o.url = origin ++ target
  version_word : Word version
  headers_lines : ∀ line ∈ headers, HeaderLine line
  given : ∀ line ∈ o.httpHeader, line ∈ headers
  replaced : ∀ line ∈ headers, IsAuthorization line → line ∈ o.httpHeader

namespace CurlMessage

variable {origin : CString} {o : CurlOptions} (m : CurlMessage origin o)

def line : CString := o.method ++ 32 :: (m.target ++ 32 :: m.version)

def bytes : List UInt8 := m.line ++ (crlf ++ (headerBytes m.headers ++ (crlf ++ o.body)))

end CurlMessage
end Sshnack.Tui
