import Sshnack.AuthorizationFrame

/-!
# Accounts

A deposit creates the account it pays into, under the id that `auth_parse` made of the bearer token:
0 for the admin token, and otherwise a positive `long` converted to `int`. Every account and every
transaction has a positive id as long as the tokens of the deposits keep theirs.
-/

namespace Sshnack

open Txn Machine

/-- One connection: the socket it was accepted on, the bytes that arrive and, for each SQLite call
made for it, whether that call fails. -/
structure HttpStep where
  internal : Bool
  chunks : List (List UInt8)
  faults : ℕ → Bool

def serveHttp (rows : ℕ) (adminToken : CString) (k : Conn Db) (s : HttpStep) : Conn Db :=
  ((handleClient rows adminToken s.internal s.chunks).run Stmt.perform s.faults k).2

/-- The account behind each row has a positive id. -/
def RealAccounts (t : Tables) : Prop :=
  (∀ u ∈ t.users, 0 < u.userId) ∧ ∀ x ∈ t.transactions, 0 < x.userId

/-- The bearer token of the bytes that arrive, empty if there is none. -/
def bearerToken (chunks : List (List UInt8)) : CString :=
  match splitCrlf (cString (recv (bufSize - 1) chunks)) with
  | none => []
  | some (_, p) => (headerLoop (p.length + 1) p []).1

/-- The token is not the admin token, and its value is positive as an `int`. -/
def AccountToken (adminToken token : CString) : Prop :=
  token ≠ adminToken ∧ 0 < (strtol token).1 % 2 ^ 32 ∧ (strtol token).1 % 2 ^ 32 < 2 ^ 31

instance (adminToken token : CString) : Decidable (AccountToken adminToken token) :=
  inferInstanceAs (Decidable (_ ∧ _ ∧ _))

/-- A deposit of a positive amount with credentials carries the token of an account. -/
def HttpStep.DepositSafe (adminToken : CString) (s : HttpStep) : Prop :=
  ∀ req amountGr, received adminToken s.chunks = some req →
    route req s.internal = .ok .postDeposit → req.auth.role ≠ .none →
    scanField "amount_gr" req.body = some amountGr → 0 < amountGr →
    AccountToken adminToken (bearerToken s.chunks)

theorem ofInt_pos_iff (v : Int) :
    0 < (Int32.ofInt v).toInt ↔ 0 < v % 2 ^ 32 ∧ v % 2 ^ 32 < 2 ^ 31 := by
  have hsize : (Int32.size : Int) = 2 ^ 32 := rfl
  rw [Int32.toInt_ofInt, Int.bmod_def, hsize]
  split_ifs <;> omega

theorem account_of_authParse {token adminToken : CString}
    (hrole : (authParse token adminToken).role ≠ .none) :
    0 < (authParse token adminToken).userId.toInt ↔ AccountToken adminToken token := by
  unfold authParse at hrole ⊢
  unfold AccountToken
  split_ifs at hrole ⊢ with hempty hadmin hnumeral
  · exact absurd rfl hrole
  · exact ⟨fun h => absurd h (by decide), fun h => absurd hadmin h.1⟩
  · rw [ofInt_pos_iff]
    exact ⟨fun h => ⟨hadmin, h⟩, fun h => h.2⟩
  · exact absurd rfl hrole

theorem received_auth {adminToken : CString} {chunks : List (List UInt8)} {req : Request}
    (h : received adminToken chunks = some req) (hrole : req.auth.role ≠ .none) :
    req.auth = authParse (bearerToken chunks) adminToken := by
  unfold received at h
  unfold bearerToken
  cases hrecv : recv (bufSize - 1) chunks with
  | nil =>
    rw [hrecv] at h
    cases h
  | cons c buf =>
    rw [hrecv] at h
    have hreq : parseRequest adminToken (cString (c :: buf)) = req := Option.some.inj h
    rw [← hreq] at hrole ⊢
    unfold parseRequest at hrole ⊢
    cases hwords : scanWords (cString (c :: buf)) with
    | none =>
      rw [hwords] at hrole
      exact absurd rfl hrole
    | some words =>
      rw [hwords] at hrole
      cases hline : splitCrlf (cString (c :: buf)) with
      | none => rfl
      | some line => rfl

/-- A call of a handler for a request: one that is granted, and if it is a deposit then of the amount
in the body. -/
def Requested (req : Request) (fn : HandlerFn) (call : ServiceCall) : Prop :=
  Granted req fn call ∧ ∀ userId amountGr, call = .txn (.balanceDeposit userId amountGr) →
    scanField "amount_gr" req.body = some amountGr

theorem HandlerFn.requested (rows : ℕ) (req : Request) (fn : HandlerFn) :
    AnswersWithin (Requested req fn) (fn.call rows req) := by
  by_cases hfn : fn = .postDeposit
  · subst hfn
    refine within_userAction _ _ _
      (fun userId amountGr => .txn (.balanceDeposit userId amountGr)) ?_
    intro hrole amountGr hamount
    refine ⟨.deposit amountGr hrole, ?_⟩
    intro userId amountGr' hcall
    cases hcall
    exact hamount
  · refine (fn.within rows req).mono ?_
    intro call hgranted
    refine ⟨hgranted, ?_⟩
    rintro userId amountGr rfl
    cases hgranted
    exact absurd rfl hfn

theorem Effect.deposited_pos {d d' : Db} {userId amountGr : Int32} {a : Except Int32 Answer}
    (he : Effect d (.txn (.balanceDeposit userId amountGr)) a d') (hne : d'.users ≠ d.users) :
    0 < amountGr := by
  cases he with
  | failed => exact absurd rfl hne
  | deposited _ _ _ hamount _ => exact hamount

theorem userId_pos {t : Tables} (h : RealAccounts t) {id : Int} (hid : id ∈ t.userIds) :
    0 < id := by
  obtain ⟨u, hu, rfl⟩ := List.mem_map.1 hid
  exact h.1 u hu

theorem realAccounts_of_users (d : Db) (h : ∀ u ∈ d.users, 0 < u.userId) :
    RealAccounts d.toTables := by
  refine ⟨h, ?_⟩
  intro x hx
  obtain ⟨u, hu, hid⟩ := List.mem_map.1 (d.valid.transactions.user x hx)
  rw [← hid]
  exact h u hu

/-- No effect but a deposit creates an account with an id of the caller's choice. -/
theorem RealAccounts.effect {d d' : Db} {call : ServiceCall} {a : Except Int32 Answer}
    (h : RealAccounts d.toTables) (he : Effect d call a d')
    (hcall : ∀ userId amountGr, call = .txn (.balanceDeposit userId amountGr) → 0 < amountGr →
      0 < userId.toInt) : RealAccounts d'.toTables := by
  apply realAccounts_of_users
  intro u hu
  by_cases hold : u ∈ d.users
  · exact h.1 u hold
  rcases he.users with hsame | ⟨userId, f, _, husers⟩ | ⟨userId, amountGr, rfl, husers⟩ |
    ⟨fingerprint, id, rfl, rfl, _, husers⟩
  · rw [hsame] at hu
    exact absurd hu hold
  · rw [husers] at hu
    obtain ⟨hid, hmem⟩ := (mem_updateBalance hu).resolve_left hold
    rw [hid]
    exact userId_pos h hmem
  · have hne : d'.users ≠ d.users := fun hsame => hold (hsame ▸ hu)
    rw [husers] at hu
    rw [List.mem_singleton.1 ((List.mem_append.1 hu).resolve_left hold)]
    exact hcall userId amountGr rfl (he.deposited_pos hne)
  · rw [husers] at hu
    rw [List.mem_singleton.1 ((List.mem_append.1 hu).resolve_left hold)]
    exact Int.lt_add_one_of_le d.valid.users.sequence.1

theorem RealAccounts.serveHttp (rows : ℕ) {adminToken : CString} {s : HttpStep}
    (hs : s.DepositSafe adminToken) {k : Conn Db}
    (hk : Settled (fun d => RealAccounts d.toTables) k) :
    Settled (fun d => RealAccounts d.toTables) (Sshnack.serveHttp rows adminToken k s) := by
  obtain ⟨d, t⟩ := k
  obtain ⟨rfl, hd⟩ := hk
  obtain ⟨d', hrun, rfl | ⟨req, fn, call, a, hreq, hroute, ⟨hgranted, hamount⟩, heffect⟩⟩ :=
    handleClient_effect rows (HandlerFn.requested rows) adminToken s.internal s.chunks s.faults d
  · rw [Sshnack.serveHttp, hrun]
    exact ⟨rfl, hd⟩
  · rw [Sshnack.serveHttp, hrun]
    refine ⟨rfl, RealAccounts.effect hd heffect ?_⟩
    rintro userId amountGr rfl hpos
    have hscan := hamount userId amountGr rfl
    cases hgranted with
    | deposit _ hrole =>
      have htoken := hs req amountGr hreq hroute hrole hscan hpos
      have hauth := received_auth hreq hrole
      rw [hauth] at hrole ⊢
      exact (account_of_authParse hrole).2 htoken

/-- In every run from the seed whose deposits are safe, the accounts are real at every moment. -/
theorem realAccounts_of_depositSafe (rows : ℕ) (adminToken : CString) (steps : List HttpStep)
    (h : ∀ s ∈ steps, s.DepositSafe adminToken) (past : List HttpStep) (hpast : past <+: steps) :
    RealAccounts (run (serveHttp rows adminToken) start past).committed.toTables := by
  have hstart : Settled (fun d => RealAccounts d.toTables) start :=
    ⟨rfl, realAccounts_of_users seed (List.forall_mem_nil _)⟩
  have hmeets : Meets (serveHttp rows adminToken) (fun _ s => s.DepositSafe adminToken) start past :=
    meets_of_forall fun s hs => h s (hpast.subset hs)
  exact (run_invariant (fun k s hk hs => RealAccounts.serveHttp rows hs hk) hstart hmeets).2

def depositStep (token : String) : HttpStep where
  internal := false
  chunks := [ascii ("POST /balance HTTP/1.1\r\nAuthorization: Bearer " ++ token ++
    "\r\n\r\n\x7b\"amount_gr\":500\x7d")]
  faults := fun _ => false

theorem depositStep_safe {token : String}
    (h : AccountToken (ascii "admin") (bearerToken (depositStep token).chunks)) :
    (depositStep token).DepositSafe (ascii "admin") :=
  fun _ _ _ _ _ _ _ => h

theorem realAccounts_of_depositSafe_numeral :
    (run (serveHttp 30 (ascii "admin")) start [depositStep "67"]).committed.users =
        [⟨67, none, 500⟩] ∧
      RealAccounts (run (serveHttp 30 (ascii "admin")) start [depositStep "67"]).committed.toTables :=
  ⟨by decide, realAccounts_of_depositSafe 30 (ascii "admin") [depositStep "67"]
    (List.forall_mem_singleton.2 (depositStep_safe (by decide))) _ (List.prefix_refl _)⟩

/-- The admin token pays into account 0, and the numeral of 2^31 into a negative one. -/
theorem not_always_realAccounts : ¬ ∀ rows adminToken steps,
    RealAccounts (run (serveHttp rows adminToken) start steps).committed.toTables := by
  intro h
  have husers : (run (serveHttp 30 (ascii "admin")) start
      [depositStep "admin", depositStep "2147483648"]).committed.users =
      [⟨0, none, 500⟩, ⟨-2147483648, none, 500⟩] := by
    decide
  have hzero := (h 30 (ascii "admin") [depositStep "admin", depositStep "2147483648"]).1
    ⟨0, none, 500⟩ (husers ▸ List.mem_cons_self)
  exact absurd hzero (by decide)

end Sshnack
