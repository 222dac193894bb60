import Sshnack.TuiCalls
import Sshnack.RemoteCalls
import Sshnack.Purchases
import Sshnack.CashLedger

/-!
# A client and its server

A client that is the only one of its server, which gets its requests whole or not at all: each key
makes its calls one after another, and each call is lost on the way there, lost on the way back or
answered. As long as the client does not ask whether to retry, its screen shows the low 32 bits of
what is stored, and so what is stored if it fits an int.
-/

namespace Sshnack

open Txn

/-- The balance of a user as `sqlite3_column_int` reads it; 0 without the user. -/
def Tables.readBalance (t : Tables) (userId : Int32) : Int32 :=
  ((t.findUser userId.toInt).map fun u => Int32.ofInt u.balance).getD 0

namespace Tui

/-- What the calls of one key are to the server. -/
def spoken (userId : Int32) (api : Api) (issued : List Issued) : List Sent :=
  issued.map fun i => ⟨userId, i.call, i.call.outcomeIn api⟩

/-- A screen and the server behind it. -/
structure Kiosk where
  app : App
  server : Conn Db

/-- One key, with the outcomes of the calls that it makes. -/
inductive Kiosk.Handles (D : Deployment) (userId : Int32) (keypad : Keypad) (key : Int32)
    (s s' : Kiosk) : Prop
  | intro (api : Api) (issued : List Issued)
      (hkey : appHandleKey keypad api key s.app = some s'.app)
      (hissued : s'.app.client = s.app.client ++ issued)
      (hspoken : Transcript D.Exchange s.server (spoken userId api issued) s'.server)

/-- The screen shows what the server reads. -/
structure Mirrors (userId : Int32) (s : Kiosk) : Prop where
  products : s.app.products = some (s.server.committed.shelf.map clientProduct)
  count : s.app.count = Int32.ofNat s.server.committed.shelf.length
  balance : s.app.balanceGr = s.server.committed.readBalance userId

structure Follows (userId : Int32) (s : Kiosk) : Prop where
  settled : Settled (fun d => OnShelf d.toTables) s.server
  unknown : s.server.committed.findUser userId.toInt = none → s.app.balanceGr = 0
  mirrors : s.app.serverDown = false → Mirrors userId s

/-- SQLite does not fail while the server reads. -/
def Deployment.ReadsQuietly (D : Deployment) : Prop :=
  ∀ call ∈ [ApiCall.getStock, ApiCall.getBalance], ∀ flt ∈ D.faults call, ∀ n, flt n = false

variable {D : Deployment} {userId : Int32} {keypad : Keypad} {api : Api} {a b : App}
  {k k' : Conn Db} {s s' : Kiosk}

/-! ### Reading -/

theorem Transcript.append {step : Int32 → ApiCall → Conn Db → Except ApiError ApiValue → Conn Db → Prop}
    {xs ys : List Sent} (h : Transcript step k (xs ++ ys) k') :
    ∃ k₁, Transcript step k xs k₁ ∧ Transcript step k₁ ys k' := by
  induction xs generalizing k with
  | nil => exact ⟨k, .nil k, h⟩
  | cons x xs ih =>
    cases h with
    | cons hx hs =>
      obtain ⟨k₁, h₁, h₂⟩ := ih hs
      exact ⟨k₁, .cons hx h₁, h₂⟩

theorem Transcript.single {step : Int32 → ApiCall → Conn Db → Except ApiError ApiValue → Conn Db → Prop}
    {x : Sent} (h : Transcript step k [x] k') : step x.userId x.call k x.outcome k' := by
  cases h with
  | cons hx hs =>
    cases hs
    exact hx

/-- The calls of `app_refresh`. -/
def refreshCalls (a : App) : List Issued := [⟨a.admin, .getStock⟩, ⟨a.admin, .getBalance⟩]

/-- The state after the first half of a refresh. -/
structure StockRefreshed (api : Api) (a a' : App) : Prop where
  client : a'.client = a.client ++ [⟨a.admin, .getStock⟩]
  admin : a'.admin = a.admin
  balanceGr : a'.balanceGr = a.balanceGr
  up : a'.serverDown = false → api.getStock ≠ .error .network
  shown : ∀ prods, api.getStock = .ok prods →
    a'.products = some prods.1 ∧ a'.count = Int32.ofNat prods.1.length

theorem stockRefreshed (api : Api) (a : App) : StockRefreshed api a (refreshStock api a) := by
  unfold refreshStock
  cases hout : api.getStock with
  | ok prods =>
    refine ⟨rfl, rfl, rfl, fun _ h => (by rw [hout] at h; cases h), fun prods' h => ?_⟩
    obtain rfl : prods = prods' := Except.ok.inj (hout.symm.trans h)
    exact ⟨rfl, rfl⟩
  | error st =>
    have hnone : ∀ prods, api.getStock = .ok prods → False := fun prods h => by
      rw [hout] at h
      cases h
    cases st with
    | network => exact ⟨rfl, rfl, rfl, fun h => (by cases h), fun prods h => (hnone prods h).elim⟩
    | http | parse =>
      refine ⟨rfl, rfl, rfl, fun _ h => ?_, fun prods h => (hnone prods h).elim⟩
      rw [hout] at h
      cases h

/-- The state after the second half. -/
structure BalanceRefreshed (api : Api) (a a' : App) : Prop where
  client : a'.client = a.client ++ [⟨a.admin, .getBalance⟩]
  products : a'.products = a.products
  count : a'.count = a.count
  up : a'.serverDown = false → a.serverDown = false ∧ api.getBalance ≠ .error .network
  shown : ∀ bal, api.getBalance = .ok bal → a'.balanceGr = bal
  kept : ∀ st, api.getBalance = .error st → a'.balanceGr = a.balanceGr

theorem balanceRefreshed (api : Api) (a : App) : BalanceRefreshed api a (refreshBalance api a) := by
  unfold refreshBalance
  cases hout : api.getBalance with
  | ok bal =>
    have hok {st : ApiError} (h : api.getBalance = .error st) : False := by
      rw [hout] at h
      cases h
    exact ⟨rfl, rfl, rfl, fun hup => ⟨hup, hok⟩, fun bal' h => Except.ok.inj (hout.symm.trans h),
      fun st h => (hok h).elim⟩
  | error st =>
    have hbad (bal : Int32) (h : api.getBalance = .ok bal) : False := by
      rw [hout] at h
      cases h
    cases st with
    | network =>
      exact ⟨rfl, rfl, rfl, fun hup => (by cases hup), fun bal h => (hbad bal h).elim,
        fun _ _ => rfl⟩
    | http | parse =>
      refine ⟨rfl, rfl, rfl, fun hup => ⟨hup, fun h => ?_⟩, fun bal h => (hbad bal h).elim,
        fun _ _ => rfl⟩
      rw [hout] at h
      cases h

theorem appRefresh_client (api : Api) (a : App) :
    (appRefresh api a).client = a.client ++ refreshCalls a := by
  have hstock := stockRefreshed api { a with serverDown := false }
  have hbalance := balanceRefreshed api (refreshStock api { a with serverDown := false })
  rw [appRefresh, hbalance.client, hstock.client, hstock.admin, List.append_assoc]
  rfl

theorem Follows.of_view {a' : App} (hf : Follows userId ⟨a, k⟩) (hproducts : a'.products = a.products)
    (hcount : a'.count = a.count) (hbalance : a'.balanceGr = a.balanceGr)
    (hdown : a'.serverDown = a.serverDown) : Follows userId ⟨a', k⟩ where
  settled := hf.settled
  unknown hnone := hbalance.trans (hf.unknown hnone)
  mirrors hup := by
    have hmirrors := hf.mirrors (hdown.symm.trans hup)
    exact ⟨hproducts.trans hmirrors.products, hcount.trans hmirrors.count,
      hbalance.trans hmirrors.balance⟩

theorem Frame.follows {a' : App} (h : Frame a a') (hf : Follows userId ⟨a, k⟩) :
    Follows userId ⟨a', k⟩ :=
  hf.of_view h.products h.count h.balanceGr h.serverDown

/-- What a key does on both sides, with the calls that it makes. -/
inductive Handled (D : Deployment) (userId : Int32) (api : Api) (s s' : Kiosk) : List Issued → Prop
  | still (h : Frame s.app s'.app) (hserver : s'.server = s.server) : Handled D userId api s s' []
  | refreshed {b : App} (h : Frame s.app b)
      (hreads : Transcript D.Served s.server (spoken userId api (refreshCalls b)) s'.server)
      (h' : Frame (appRefresh api b) s'.app) : Handled D userId api s s' (refreshCalls b)
  | cut {b : App} {call : ApiCall} (h : Calling s.app b call)
      (hcall : D.Served userId call s.server (.error .network) s'.server)
      (h' : Frame { b.issue call with serverDown := true } s'.app) :
      Handled D userId api s s' [⟨b.admin, call⟩]
  | refused {b : App} {call : ApiCall} (h : Calling s.app b call) {st : ApiError} (hst : st ≠ .network)
      (hcall : D.Served userId call s.server (.error st) s'.server)
      (h' : Frame (b.issue call) s'.app) : Handled D userId api s s' [⟨b.admin, call⟩]
  | carried {b b' : App} {call : ApiCall} (h : Calling s.app b call) {k : Conn Db}
      {value : Except ApiError ApiValue} (hvalue : value ≠ .error .network)
      (hcall : D.Served userId call s.server value k) (hissued : Frame (b.issue call) b')
      (hreads : Transcript D.Served k (spoken userId api (refreshCalls b')) s'.server)
      (h' : Frame (appRefresh api b') s'.app) :
      Handled D userId api s s' (⟨b.admin, call⟩ :: refreshCalls b')

theorem Kiosk.Handles.handled {key : Int32} (hwhole : D.WholeOrNothing) (hpos : 0 < userId)
    (hk : Settled (fun d => OnShelf d.toTables) s.server) (h : Kiosk.Handles D userId keypad key s s') :
    ∃ api issued, s'.app.client = s.app.client ++ issued ∧ Handled D userId api s s' issued := by
  obtain ⟨a, k⟩ := s
  obtain ⟨a', k'⟩ := s'
  obtain ⟨api, issued, hkey, hissued, hspoken⟩ := h
  have hserved := hspoken.served hwhole (fun x hx => by
    obtain ⟨i, -, rfl⟩ := List.mem_map.1 hx
    exact hpos) hk
  have hcalls (calls : List Issued) (hclient : a'.client = a.client ++ calls) : issued = calls :=
    List.append_cancel_left (hissued.symm.trans hclient)
  refine ⟨api, issued, hissued, ?_⟩
  cases keyEffect_appHandleKey hkey with
  | still h =>
    obtain rfl := hcalls [] (by rw [h.client, List.append_nil])
    cases hserved
    exact .still h rfl
  | @refreshed b h h' =>
    obtain rfl := hcalls (refreshCalls b) (by rw [h'.client, appRefresh_client, h.client])
    exact .refreshed h hserved h'
  | @cut b call h hout h' =>
    obtain rfl := hcalls [⟨b.admin, call⟩]
      (by rw [h'.client]; exact congrArg (· ++ _) h.client)
    exact .cut h (hout ▸ hserved.single) h'
  | @refused b call h st hst hout h' =>
    obtain rfl := hcalls [⟨b.admin, call⟩]
      (by rw [h'.client]; exact congrArg (· ++ _) h.client)
    exact .refused h hst (hout ▸ hserved.single) h'
  | @carried b b' call h hout hframe h' =>
    obtain rfl := hcalls (⟨b.admin, call⟩ :: refreshCalls b') (by
      rw [h'.client, appRefresh_client, hframe.client, List.append_cons, ← h.client]
      rfl)
    have hsplit : Transcript D.Served k (spoken userId api [⟨b.admin, call⟩] ++
        spoken userId api (refreshCalls b')) k' := hserved
    obtain ⟨k₁, hfirst, hsecond⟩ := hsplit.append
    exact .carried h hout hfirst.single hframe hsecond h'

end Tui
end Sshnack
