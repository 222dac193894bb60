import Sshnack.Catalogue
import Sshnack.SelectedSums

/-!
# The cash ledger

Every change of a balance is recorded as a row of `transactions`, so a balance should be the sum of
its user's rows. The balance is a 64-bit column, but `balance_reset` reads it, reports it and logs
its negation as a C int. Past `INT_MAX` the reset is harmless only when it does not get through: when
the low 32 bits are zero it stops early, and when they are negative the positive log amount breaks
the CHECK of a withdrawal. `Refundable` describes the balances for which the ledger survives.
-/

namespace Sshnack

open Txn Machine

def Tables.cashLog (t : Tables) (id : Int) : Int :=
  Rows.sumWhere (fun x => x.userId = id) Transaction.totalAmount t.transactions

def Tables.balanceOf (t : Tables) (id : Int) : Int := ((t.findUser id).map User.balance).getD 0

/-- Every stored balance is the sum of the user's transactions. -/
def CashLedger (t : Tables) : Prop := ∀ u ∈ t.users, u.balance = t.cashLog u.userId

instance (t : Tables) : Decidable (CashLedger t) := inferInstanceAs (Decidable (∀ u ∈ t.users, _))

/-- An amount that `balance_reset` reports is the stored balance that it removed. -/
def HonestRefund (k : Conn Db) (x : FaultyCall) : Prop :=
  ∀ userId amount, x.1 = .txn (.balanceReset userId) → outcome k x = .ok (.amount amount) →
    amount.toInt = k.committed.balanceOf userId.toInt - (serve k x).committed.balanceOf userId.toInt

/-- A balance below `2 ^ 31`, or one whose low 32 bits are zero or negative but not `INT_MIN`. -/
def Refundable (b : Int) : Prop :=
  b < 2 ^ 31 ∨ (-2 ^ 31 < (Int32.ofInt b).toInt ∧ (Int32.ofInt b).toInt ≤ 0)

/-- The call is not a reset of a user whose balance is not refundable. -/
def ResetSafe (d : Db) : ServiceCall → Prop
  | .txn (.balanceReset userId) => ∀ u ∈ d.findUser userId.toInt, Refundable u.balance
  | _ => True

theorem cashLog_of_append {t t' : Tables} {x : Transaction}
    (h : t'.transactions = t.transactions ++ [x]) (id : Int) :
    t'.cashLog id = t.cashLog id + if x.userId = id then x.totalAmount else 0 := by
  rw [Tables.cashLog, h, Rows.sumWhere_snoc, Tables.cashLog]

theorem cashLog_of_eq {t t' : Tables} (h : t'.transactions = t.transactions) (id : Int) :
    t'.cashLog id = t.cashLog id := by
  unfold Tables.cashLog
  rw [h]

theorem findUser_ne (d : Db) {id : Int} (h : d.findUser id = none) {u : User} (hu : u ∈ d.users) :
    u.userId ≠ id := by
  simpa using List.find?_eq_none.1 h u hu

/-- The id that AUTOINCREMENT draws next is not in use. -/
theorem findUser_next (d : Db) : d.findUser (d.usersSeq + 1) = none := by
  apply List.find?_eq_none.2
  intro u hu
  have hle := d.valid.users.sequence.2.2 u hu
  simp only [decide_eq_true_eq]
  omega

theorem cashLog_of_absent (d : Db) {id : Int} (h : d.findUser id = none) : d.cashLog id = 0 := by
  apply Rows.sumWhere_eq_zero
  intro x hx hid
  obtain ⟨u, hu, hux⟩ := List.mem_map.1 (d.valid.transactions.user x hx)
  exact findUser_ne d h hu (hux.trans hid)

theorem CashLedger.of_eq {t t' : Tables} (h : CashLedger t) (husers : t'.users = t.users)
    (htrans : t'.transactions = t.transactions) : CashLedger t' := by
  intro u hu
  rw [husers] at hu
  rw [cashLog_of_eq htrans]
  exact h u hu

/-- One balance changes and one transaction of that user accounts for the change. -/
theorem CashLedger.adjust {t t' : Tables} (h : CashLedger t) (id : Int) (f : Int → Int)
    (x : Transaction) (husers : t'.users = (t.updateBalance id f).users)
    (htrans : t'.transactions = t.transactions ++ [x]) (hx : x.userId = id)
    (hf : ∀ u ∈ t.users, u.userId = id → f u.balance = u.balance + x.totalAmount) :
    CashLedger t' := by
  intro u' hu'
  rw [husers] at hu'
  obtain ⟨u, hu, rfl⟩ := List.mem_map.1 hu'
  rw [cashLog_of_append htrans]
  by_cases hid : u.userId = id
  · have hbal := h u hu
    have hnew := hf u hu hid
    simp only [hid, hx, if_true] at hbal hnew ⊢
    omega
  · have hbal := h u hu
    have hne : ¬ id = u.userId := fun he => hid he.symm
    simp only [hid, hx, hne, if_false]
    omega

theorem findUser_unique (d : Db) {id : Int} {u v : User} (h : d.findUser id = some u)
    (hv : v ∈ d.users) (hid : v.userId = id) : v = u := by
  obtain ⟨hu, huid⟩ := d.findUser_eq_some h
  exact d.user_eq_of_id hv hu (hid.trans huid.symm)

/-- A new user row whose balance is what the log says. -/
theorem CashLedger.newUser {t t' : Tables} (h : CashLedger t) {v : User}
    (husers : t'.users = t.users ++ [v])
    (hold : ∀ u ∈ t.users, t'.cashLog u.userId = t.cashLog u.userId)
    (hnew : v.balance = t'.cashLog v.userId) : CashLedger t' := by
  intro u hu
  rw [husers] at hu
  rcases List.mem_append.1 hu with hu | hu
  · rw [hold u hu]
    exact h u hu
  · rw [List.mem_singleton] at hu
    rw [hu]
    exact hnew

theorem CashLedger.deposited {d d' : Db} {id amount : Int} (h : CashLedger d.toTables)
    (htables : d'.toTables = d.deposited id amount) : CashLedger d'.toTables := by
  cases hfind : d.findUser id with
  | some u =>
    apply h.adjust id (· + amount) ⟨.deposit, id, none, none, amount⟩
    · rw [htables, Tables.deposited, Tables.upsertBalance, hfind]
      rfl
    · rw [htables, Tables.deposited, Tables.upsertBalance, hfind]
      rfl
    · rfl
    · intro v _ _
      rfl
  | none =>
    have husers : d'.users = d.users ++ [⟨id, none, amount⟩] := by
      rw [htables, Tables.deposited, Tables.upsertBalance, hfind]
      rfl
    have htrans : d'.transactions = d.transactions ++ [⟨.deposit, id, none, none, amount⟩] := by
      rw [htables, Tables.deposited, Tables.upsertBalance, hfind]
      rfl
    apply h.newUser husers
    · intro u hu
      have hne : ¬ id = u.userId := fun he => findUser_ne d hfind hu he.symm
      rw [cashLog_of_append htrans]
      simp only [hne, if_false, add_zero]
    · rw [cashLog_of_append htrans, cashLog_of_absent d hfind]
      simp only [if_true, zero_add]

/-- A refund that got through the CHECK of the log removed and reported the whole balance. -/
theorem refunded_amount {d d' : Db} {id : Int} {user : User} (huser : d.findUser id = some user)
    (hsafe : Refundable user.balance)
    (htables : d'.toTables = d.refunded id (Int32.ofInt user.balance)) :
    (Int32.ofInt user.balance).toInt = user.balance ∧
      (-Int32.ofInt user.balance).toInt = -user.balance := by
  have hmem := (d.findUser_eq_some huser).1
  have hnonneg := d.valid.users.check user hmem
  have hrow : (⟨.withdrawal, id, none, none, (-Int32.ofInt user.balance).toInt⟩ : Transaction) ∈
      d'.transactions := by
    rw [htables]
    exact List.mem_append_right _ (List.mem_singleton.2 rfl)
  have hneg : (-Int32.ofInt user.balance).toInt < 0 := (d'.valid.transactions.check _ hrow).2.2
  rcases hsafe with hsmall | ⟨hmin, hle⟩
  · have hexact := toInt_ofInt_of_nonneg hnonneg hsmall
    have hneq : (Int32.ofInt user.balance).toInt ≠ -2 ^ 31 := by omega
    exact ⟨hexact, by rw [toInt_neg_of_ne_min hneq, hexact]⟩
  · have hneq : (Int32.ofInt user.balance).toInt ≠ -2 ^ 31 := by omega
    rw [toInt_neg_of_ne_min hneq] at hneg
    omega

theorem CashLedger.effect {d d' : Db} {call : ServiceCall} {a : Except Int32 Answer}
    (hc : Catalogue d.toTables) (h : CashLedger d.toTables) (hsafe : ResetSafe d call)
    (he : Effect d call a d') : CashLedger d'.toTables := by
  cases he with
  | failed => exact h
  | read => exact h
  | nothingToRefund => exact h
  | purchased userId slotId slot item user _ _ hitem _ _ _ htables =>
    obtain ⟨hprice, hpos⟩ := hc.toInt_price (d.findItem_eq_some hitem).1
    have hneg : (-Int32.ofInt item.price).toInt = -item.price := by
      rw [toInt_neg_of_ne_min (by omega), hprice]
    apply h.adjust userId.toInt (· - (Int32.ofInt item.price).toInt)
      ⟨.purchase, userId.toInt, some (Int32.ofInt slot.itemId).toInt, some 1,
        (-Int32.ofInt item.price).toInt⟩
    · rw [htables]
      rfl
    · rw [htables]
      rfl
    · rfl
    · intro u _ _
      simp only [hneg, hprice]
      omega
  | deposited userId amountGr _ _ htables => exact h.deposited htables
  | refunded userId user _ huser hzero htables =>
    have hamount := (refunded_amount huser (hsafe user huser) htables).2
    apply h.adjust userId.toInt (fun _ => 0)
      ⟨.withdrawal, userId.toInt, none, none, (-Int32.ofInt user.balance).toInt⟩
    · rw [htables]
      rfl
    · rw [htables]
      rfl
    · rfl
    · intro u hu hid
      rw [findUser_unique d huser hu hid]
      simp only [hamount]
      omega
  | restocked slotId qty slot _ _ _ htables =>
    exact h.of_eq (by rw [htables]; rfl) (by rw [htables]; rfl)
  | repriced itemId priceGr _ _ htables =>
    exact h.of_eq (by rw [htables]; rfl) (by rw [htables]; rfl)
  | lookedUp fingerprint _ htables =>
    cases hfind : d.findFingerprint fingerprint with
    | some u =>
      rw [htables, Tables.upsertFingerprint, hfind]
      exact h.of_eq rfl rfl
    | none =>
      rw [htables, Tables.upsertFingerprint, hfind]
      exact h.newUser rfl (fun u _ => cashLog_of_eq rfl _)
        ((cashLog_of_absent d (findUser_next d)).symm.trans (cashLog_of_eq rfl _).symm)

theorem refund_of_effect {d d' : Db} {userId amount : Int32}
    (hsafe : ResetSafe d (.txn (.balanceReset userId)))
    (he : Effect d (.txn (.balanceReset userId)) (.ok (.amount amount)) d') :
    amount.toInt = d.balanceOf userId.toInt - d'.balanceOf userId.toInt := by
  cases he with
  | nothingToRefund => simp
  | refunded _ user _ huser hzero htables =>
    have hamount := (refunded_amount huser (hsafe user huser) htables).1
    have hid := (d.findUser_eq_some huser).2
    have hafter : d'.balanceOf userId.toInt = 0 := by
      have hfind : d'.findUser userId.toInt =
          (d.updateBalance userId.toInt (fun _ => 0)).findUser userId.toInt := by
        rw [htables]
        rfl
      rw [Tables.balanceOf, hfind, Tables.findUser_updateBalance, huser]
      simp only [Option.map_some, hid, if_true, Option.getD_some]
    have hbefore : d.balanceOf userId.toInt = user.balance := by
      rw [Tables.balanceOf, huser]
      rfl
    rw [hamount, hbefore, hafter, sub_zero]

/-- As long as no reset meets a balance that is not refundable, every balance is the sum of its log
and every reset reports what it removed. -/
theorem cashLedger_of_resetSafe (xs : List FaultyCall)
    (h : Meets serve (fun k x => ResetSafe k.committed x.1) start xs) :
    CashLedger (run serve start xs).committed.toTables ∧ Meets serve HonestRefund start xs := by
  have hseed : Catalogue seed.toTables ∧ CashLedger seed.toTables := by
    refine ⟨catalogue_seed, ?_⟩
    intro u hu
    cases hu
  have hstep : ∀ d call a d', (Catalogue d.toTables ∧ CashLedger d.toTables) →
      ResetSafe d call → Effect d call a d' → Catalogue d'.toTables ∧ CashLedger d'.toTables := by
    intro d call a d' ⟨hc, hl⟩ hsafe he
    exact ⟨hc.effect he, hl.effect hc hsafe he⟩
  have hledger := reachable_invariant hseed hstep xs h
  refine ⟨hledger.2.2, reachable_meets hseed hstep ?_ xs h⟩
  intro k x hk hsafe userId amount hcall hout
  have he := hk.effect x
  rw [hcall] at hsafe he
  rw [hout] at he
  exact refund_of_effect hsafe he

theorem cashLedger_of_small_refund :
    CashLedger (run serve start [(.txn (.balanceDeposit 1 500), fun _ => false),
      (.txn (.balanceReset 1), fun _ => false)]).committed.toTables :=
  (cashLedger_of_resetSafe [(.txn (.balanceDeposit 1 500), fun _ => false),
      (.txn (.balanceReset 1), fun _ => false)]
    ⟨trivial, (by unfold ResetSafe Refundable; decide), trivial⟩).1

/-- Three deposits of `INT_MAX` and a reset: 6442450941 is removed and 2147483645 reported. -/
def overflowingRefund : List FaultyCall :=
  [(.txn (.balanceDeposit 1 2147483647), fun _ => false),
    (.txn (.balanceDeposit 1 2147483647), fun _ => false),
    (.txn (.balanceDeposit 1 2147483647), fun _ => false),
    (.txn (.balanceReset 1), fun _ => false)]

theorem cashLedger_not_always :
    ¬ ∀ xs, CashLedger (run serve start xs).committed.toTables ∧
      Meets serve HonestRefund start xs := by
  intro h
  have hbroken : ¬ CashLedger (run serve start overflowingRefund).committed.toTables := by
    decide
  exact hbroken (h overflowingRefund).1

end Sshnack
