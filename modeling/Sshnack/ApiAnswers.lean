import Sshnack.ResponseMessages
import Sshnack.StockAnswer

/-!
# The answers to the client

What `api_client.c` makes of the bytes that come back. The pieces of a body are put together in a
growing buffer; the status decides whether the body is read at all.
-/

namespace Sshnack.Tui

/-- `buf_t`; without data the pointer is NULL. -/
structure Buf where
  data : Option (List UInt8)

def writeCb (b : Buf) (ptr : List UInt8) : Buf := ⟨some (b.data.getD [] ++ ptr)⟩

/-- What `curl_easy_perform` makes of the bytes that come back: the status and the pieces that it gives
to the write callback, or an error. It understands the messages of the server. -/
structure Libcurl where
  perform : List UInt8 → Option (Int64 × List (List UInt8))
  exact : ∀ m : Http.Message, m.status ∈ answerCodes → ∃ pieces,
    perform m.text = some (Int64.ofNat m.status, pieces) ∧ pieces.flatten = m.body

def doRequestAnswer (curl : Libcurl) (bytes : List UInt8) : Except ApiError (Int64 × List UInt8) :=
  match curl.perform bytes with
  | none => .error .network
  | some (status, pieces) => .ok (status, (pieces.foldl writeCb ⟨none⟩).data.getD [])

inductive ApiValue where
  | nothing
  | amount (gr : Int32)
  | products (out : List Product)
  deriving DecidableEq

def amountAnswer (strtod : Strtod) (key : String) (resp : Except ApiError (Int64 × List UInt8)) :
    Except ApiError Int32 :=
  match resp with
  | .error st => .error st
  | .ok (status, data) =>
      if 400 ≤ status then .error .http
      else match cjsonParse strtod (data.takeWhile (· ≠ 0)) with
        | none => .error .parse
        | some root =>
            match cjsonGetObjectItem root (ascii key) with
            | some (.number n) => .ok n
            | _ => .error .parse

def apiGetBalanceAnswer (strtod : Strtod) (resp : Except ApiError (Int64 × List UInt8)) :
    Except ApiError Int32 := amountAnswer strtod "balance_gr" resp

def apiRefundAnswer (strtod : Strtod) (resp : Except ApiError (Int64 × List UInt8)) :
    Except ApiError Int32 := amountAnswer strtod "refund_gr" resp

def statusAnswer (resp : Except ApiError (Int64 × List UInt8)) : Except ApiError Unit :=
  match resp with
  | .error st => .error st
  | .ok (status, _) => if 400 ≤ status then .error .http else .ok ()

def ApiCall.answer (strtod : Strtod) (resp : Except ApiError (Int64 × List UInt8)) :
    ApiCall → Option (Except ApiError ApiValue)
  | .getStock => (apiGetStockAnswer strtod resp).map fun r => r.map fun out => .products out.1
  | .getBalance => some ((apiGetBalanceAnswer strtod resp).map .amount)
  | .refund => some ((apiRefundAnswer strtod resp).map .amount)
  | .deposit _ | .purchase _ | .restock _ _ | .setPrice _ _ =>
      some ((statusAnswer resp).map fun _ => .nothing)

/-- The outcome of a call among those of one key. -/
def ApiCall.outcomeIn (api : Api) : ApiCall → Except ApiError ApiValue
  | .getStock => api.getStock.map fun out => .products out.1
  | .getBalance => api.getBalance.map .amount
  | .deposit _ => api.deposit.map fun _ => .nothing
  | .purchase _ => api.purchase.map fun _ => .nothing
  | .refund => api.refund.map .amount
  | .restock _ _ => api.restock.map fun _ => .nothing
  | .setPrice _ _ => api.setPrice.map fun _ => .nothing

end Sshnack.Tui
