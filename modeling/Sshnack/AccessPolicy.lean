import Sshnack.Router
import Sshnack.ServiceRuns

/-!
# Which service calls a request can cause

`Granted` is the access policy: the service calls each handler may make for a request, with the role
that it asks for. Every handler answers at once or makes one granted call and then answers, and the
routes give each handler its method and the lookup to the internal socket alone.
-/

namespace Sshnack

open Txn

/-- The service calls that a handler may make for a request. -/
inductive Granted (req : Request) : HandlerFn → ServiceCall → Prop
  | listing (rows : ℕ) : Granted req .getStock (.read (.productsList rows))
  | balance : Granted req .getBalance (.read (.balanceGet req.auth.userId))
  | restock (slotId qty : Int32) (hrole : req.auth.role = .admin) :
      Granted req .postRestock (.txn (.productRestock slotId qty))
  | price (itemId priceGr : Int32) (hrole : req.auth.role = .admin) :
      Granted req .postUpdatePrice (.updatePrice itemId priceGr)
  | deposit (amountGr : Int32) (hrole : req.auth.role ≠ .none) :
      Granted req .postDeposit (.txn (.balanceDeposit req.auth.userId amountGr))
  | purchase (slotId : Int32) (hrole : req.auth.role ≠ .none) :
      Granted req .postPurchase (.txn (.ordersPurchase req.auth.userId slotId))
  | reset (hrole : req.auth.role ≠ .none) :
      Granted req .deleteBalance (.txn (.balanceReset req.auth.userId))
  | lookup (fingerprint : CString) : Granted req .lookupUser (.txn (.usersLookup fingerprint))

/-- The program answers at once, or makes one of the service calls and then answers. -/
inductive AnswersWithin (P : ServiceCall → Prop) : Prog Stmt Row Response → Prop
  | atOnce (r : Response) : AnswersWithin P (.ret r)
  | calling (call : ServiceCall) (f : Except Int32 Answer → Response) (h : P call) :
      AnswersWithin P (call.prog >>= fun result => .ret (f result))

theorem AnswersWithin.run {P : ServiceCall → Prop} {p : Prog Stmt Row Response}
    (h : AnswersWithin P p) (flt : ℕ → Bool) (d : Db) :
    ∃ d', (p.run Stmt.perform flt ⟨d, none⟩).2 = ⟨d', none⟩ ∧
      (d' = d ∨ ∃ call a, P call ∧ Effect d call a d') := by
  cases h with
  | atOnce r => exact ⟨d, rfl, .inl rfl⟩
  | calling call f hcall =>
    obtain ⟨d', hserve, heffect⟩ := serve_effect d (call, flt)
    rw [Prog.run_bind]
    exact ⟨d', hserve, .inr ⟨call, _, hcall, heffect⟩⟩

variable {P : ServiceCall → Prop} {req : Request}

theorem AnswersWithin.mono {Q : ServiceCall → Prop} {p : Prog Stmt Row Response}
    (h : AnswersWithin P p) (hPQ : ∀ call, P call → Q call) : AnswersWithin Q p := by
  cases h with
  | atOnce r => exact .atOnce r
  | calling call f hcall => exact .calling call f (hPQ call hcall)

theorem within_adminAction (path key failed : String) (call : Int32 → Int32 → ServiceCall)
    (hP : req.auth.role = .admin → ∀ id x, P (call id x)) :
    AnswersWithin P (adminAction path key failed (fun id x => (call id x).prog) req) := by
  unfold adminAction
  by_cases hrole : req.auth.role = .admin
  · rw [if_neg (not_not.2 hrole)]
    cases scanNumber (ascii path) req.path with
    | none => exact .atOnce _
    | some id =>
      cases scanField key req.body with
      | none => exact .atOnce _
      | some x =>
        simp only [Prog.pure_eq, ← apply_ite Prog.ret]
        exact .calling (call id x) _ (hP hrole id x)
  · rw [if_pos hrole]
    exact .atOnce _

theorem within_userAction (send : ℕ → CString → Response) (key failed : String)
    (call : Int32 → Int32 → ServiceCall)
    (hP : req.auth.role ≠ .none → ∀ x, scanField key req.body = some x →
      P (call req.auth.userId x)) :
    AnswersWithin P (userAction send key failed (fun id x => (call id x).prog) req) := by
  unfold userAction
  by_cases hrole : req.auth.role = .none
  · rw [if_pos hrole]
    exact .atOnce _
  · rw [if_neg hrole]
    cases hx : scanField key req.body with
    | none => exact .atOnce _
    | some x =>
      simp only [Prog.pure_eq, ← apply_ite Prog.ret]
      exact .calling (call req.auth.userId x) _ (hP hrole x hx)

theorem within_balanceReport (key : String) (call : Int32 → ServiceCall)
    (hP : req.auth.role ≠ .none → P (call req.auth.userId)) :
    AnswersWithin P (balanceReport key (fun id => (call id).prog) req) := by
  unfold balanceReport
  by_cases hrole : req.auth.role = .none
  · rw [if_pos hrole]
    exact .atOnce _
  · rw [if_neg hrole]
    simp only [Prog.pure_eq, ← apply_ite Prog.ret]
    exact .calling (call req.auth.userId) _ (hP hrole)

theorem within_handleLookupUser
    (hP : ∀ fingerprint, P (.txn (.usersLookup fingerprint))) :
    AnswersWithin P (handleLookupUser req) := by
  unfold handleLookupUser
  cases scanFingerprint req.body with
  | none => exact .atOnce _
  | some fingerprint =>
    simp only [Prog.pure_eq, ← apply_ite Prog.ret]
    exact .calling (.txn (.usersLookup fingerprint)) _ (hP fingerprint)

theorem within_handleGetStock (rows : ℕ) (req : Request)
    (hP : P (.read (.productsList rows))) : AnswersWithin P (handleGetStock rows req) := by
  unfold handleGetStock
  simp only [Prog.pure_eq, ← apply_ite Prog.ret]
  exact .calling (.read (.productsList rows)) _ hP

/-- A handler makes no service call but those granted to it. -/
theorem HandlerFn.within (rows : ℕ) (fn : HandlerFn) (req : Request) :
    AnswersWithin (Granted req fn) (fn.call rows req) := by
  cases fn with
  | getStock => exact within_handleGetStock rows req (.listing rows)
  | postRestock =>
    exact within_adminAction _ _ _ (fun slotId qty => .txn (.productRestock slotId qty))
      fun hrole slotId qty => .restock slotId qty hrole
  | getBalance =>
    exact within_balanceReport _ (fun userId => .read (.balanceGet userId)) fun _ => .balance
  | postDeposit =>
    exact within_userAction _ _ _ (fun userId amountGr => .txn (.balanceDeposit userId amountGr))
      fun hrole amountGr _ => .deposit amountGr hrole
  | deleteBalance =>
    exact within_balanceReport _ (fun userId => .txn (.balanceReset userId)) .reset
  | postPurchase =>
    exact within_userAction _ _ _ (fun userId slotId => .txn (.ordersPurchase userId slotId))
      fun hrole slotId _ => .purchase slotId hrole
  | postUpdatePrice =>
    exact within_adminAction _ _ _ (fun itemId priceGr => .updatePrice itemId priceGr)
      fun hrole itemId priceGr => .price itemId priceGr hrole
  | getSlow => exact .atOnce _
  | lookupUser => exact within_handleLookupUser .lookup

/-- The method a handler is registered for. -/
def HandlerFn.method : HandlerFn → Method
  | .getStock | .getBalance | .getSlow => .get
  | .postDeposit | .postPurchase | .lookupUser => .post
  | .postRestock | .postUpdatePrice => .patch
  | .deleteBalance => .delete

theorem registered_methods : ∀ h ∈ initRouter.root.payloads,
    (∀ fn ∈ h.get, fn.method = .get) ∧ (∀ fn ∈ h.post, fn.method = .post) ∧
      (∀ fn ∈ h.patch, fn.method = .patch) ∧ ∀ fn ∈ h.del, fn.method = .delete := by
  decide +kernel

theorem registered_internal : ∀ h ∈ initRouter.root.payloads, h.internal = false →
    ∀ m ∈ [Method.get, .post, .patch, .delete], h.fn (some m) ≠ some .lookupUser := by
  decide +kernel

theorem Handler.fn_method {h : Handler} (hh : h ∈ initRouter.root.payloads) {m : Option Method}
    {fn : HandlerFn} (hfn : h.fn m = some fn) : m = some fn.method := by
  obtain ⟨hget, hpost, hpatch, hdel⟩ := registered_methods h hh
  rcases m with _ | _ | _ | _ | _
  · cases hfn
  · rw [hget fn hfn]
  · rw [hpost fn hfn]
  · rw [hpatch fn hfn]
  · rw [hdel fn hfn]

/-- A request reaches a handler only with the handler's method, and the lookup only from the internal
socket. -/
theorem route_ok {internal : Bool} {fn : HandlerFn} (h : route req internal = .ok fn) :
    req.method = some fn.method ∧ (fn = .lookupUser → internal = true) := by
  unfold route at h
  cases hsearch : initRouter.searchNode req.path with
  | none =>
    rw [hsearch] at h
    cases h
  | some handler =>
    have hmem : handler ∈ initRouter.root.payloads := RadixTree.search_mem hsearch
    rw [hsearch] at h
    simp only at h
    split_ifs at h with hinternal
    cases hfn : handler.fn req.method with
    | none =>
      rw [hfn] at h
      cases h
    | some fn' =>
      rw [hfn] at h
      cases h
      have hmethod := Handler.fn_method hmem hfn
      constructor
      · exact hmethod
      · rintro rfl
        by_contra hpublic
        have hopen : handler.internal = false := by simpa [hpublic] using hinternal
        rw [hmethod] at hfn
        exact registered_internal handler hmem hopen _ (by decide) hfn

/-- Whatever bytes arrive and whichever SQLite calls fail, `handle_client` changes nothing, or it
parses a request that reaches a handler and has the effect of one call of the handler. -/
theorem handleClient_effect {P : Request → HandlerFn → ServiceCall → Prop} (rows : ℕ)
    (hP : ∀ req (fn : HandlerFn), AnswersWithin (P req fn) (fn.call rows req))
    (adminToken : CString) (internal : Bool) (chunks : List (List UInt8)) (flt : ℕ → Bool)
    (d : Db) :
    ∃ d', ((handleClient rows adminToken internal chunks).run Stmt.perform flt ⟨d, none⟩).2 =
        ⟨d', none⟩ ∧
      (d' = d ∨ ∃ req fn call a, received adminToken chunks = some req ∧
        route req internal = .ok fn ∧ P req fn call ∧ Effect d call a d') := by
  unfold handleClient
  cases hreq : received adminToken chunks with
  | none => exact ⟨d, rfl, .inl rfl⟩
  | some req =>
    by_cases hmethod : req.method = none
    · simp only [hmethod, if_true]
      exact ⟨d, rfl, .inl rfl⟩
    · simp only [hmethod, if_false, Prog.pure_eq, dispatch]
      rw [Prog.run_bind]
      cases hroute : route req internal with
      | error response => exact ⟨d, rfl, .inl rfl⟩
      | ok fn =>
        obtain ⟨d', hrun, hsame | ⟨call, a, hcall, heffect⟩⟩ := (hP req fn).run flt d
        · exact ⟨d', hrun, .inl hsame⟩
        · exact ⟨d', hrun, .inr ⟨req, fn, call, a, rfl, hroute, hcall, heffect⟩⟩

end Sshnack
