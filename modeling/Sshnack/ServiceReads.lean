import Sshnack.ServiceIsolation
import Sshnack.TxnReads
import Sshnack.Seed

/-!
# What the readers return

`balance_get` and `products_list` open no transaction of their own: on the shared handle they read the
data of whatever transaction is open. As long as that transaction has not changed the rows they read,
and the stored integers fit in an int, everything they return is the value in the committed database
at one of their own calls.
-/

namespace Sshnack

open Txn Machine

variable {ι : Type} [DecidableEq ι]

/-- What `sqlite3_column_int` returns exactly. -/
def Value.FitsInt : Value → Prop
  | .int x => -2 ^ 31 ≤ x ∧ x < 2 ^ 31
  | .text _ => True

instance : (v : Value) → Decidable v.FitsInt
  | .int _ => inferInstanceAs (Decidable (_ ∧ _))
  | .text _ => isTrue trivial

def ReplyFits : Reply Row → Prop
  | .row r => ∀ v ∈ r, v.FitsInt
  | _ => True

instance : DecidablePred ReplyFits
  | .row _ => inferInstanceAs (Decidable (∀ v ∈ _, _))
  | .ok => isTrue trivial
  | .done => isTrue trivial
  | .error => isTrue trivial

/-- The price and the quantity are those of the slot in one of the databases. -/
def ShowsSlot (S : Db → Prop) (p : Product) : Prop :=
  ∃ d, S d ∧ ∃ slot item, d.slotItem p.slotId.toInt = some (slot, item) ∧
    p.priceGr.toInt = item.price ∧ p.stockQty.toInt = slot.quantity

/-- Everything in the answer is the value in one of the databases. -/
def ReadOp.Shows (S : Db → Prop) : ReadOp → Answer → Prop
  | .balanceGet userId, answer => ∃ d, S d ∧ ∃ user, d.findUser userId.toInt = some user ∧
      ∃ out : Int32, answer = .amount out ∧ out.toInt = user.balance
  | .productsList _, answer => ∃ ps, answer = .products ps ∧ ∀ p ∈ ps, ShowsSlot S p
  | .productGet _, answer => ∃ ps, answer = .products ps ∧ ∀ p ∈ ps, ShowsSlot S p

variable {S : Db → Prop} {answer : Answer}

/-- A query fails, or it returns what one of the databases has. -/
theorem fed_query {s : Stmt} {next : Reply Row → Service} {find : Db → Option Row}
    (hs : ∀ d, Stmt.perform s d = some (d, find d))
    (h : Fed Stmt.perform ReplyFits S (.call (.step s) next) (.ret (.ok answer))) :
    Fed Stmt.perform ReplyFits S (next .error) (.ret (.ok answer)) ∨
      Fed Stmt.perform ReplyFits S (next .done) (.ret (.ok answer)) ∨
      ∃ d row, S d ∧ find d = some row ∧ (∀ v ∈ row, v.FitsInt) ∧
        Fed Stmt.perform ReplyFits S (next (.row row)) (.ret (.ok answer)) := by
  rcases h.of_call with hfail | ⟨d, hd, hfits, h⟩
  · exact .inl hfail
  simp only [Conn.perform, Conn.view_none, hs] at h hfits
  cases hfind : find d with
  | none =>
    rw [hfind] at h
    exact .inr (.inl h)
  | some row =>
    rw [hfind] at h hfits
    exact .inr (.inr ⟨d, row, hd, hfind, hfits, h⟩)

theorem toInt_ofInt_of_fits {x : Int} (h : (Value.int x).FitsInt) : (Int32.ofInt x).toInt = x :=
  Int32.toInt_ofInt_of_le h.1 h.2

/-- A row of the catalogue, read column by column. -/
theorem showsSlot_row {d : Db} (hd : S d) {id : Int} {found : Slot × Item}
    (hslot : d.slotItem id = some found) (hfits : ∀ v ∈ productRow found, v.FitsInt) :
    ShowsSlot S (readProduct (productRow found)) := by
  obtain ⟨slot, item⟩ := found
  have hid : slot.slotId = id := by
    obtain ⟨slot', hslot', hitem⟩ := Option.bind_eq_some_iff.1 hslot
    obtain ⟨item', -, heq⟩ := Option.map_eq_some_iff.1 hitem
    cases heq
    exact (d.findSlot_eq_some hslot').2
  have hexact : ∀ x, Value.int x ∈ productRow (slot, item) → (Int32.ofInt x).toInt = x :=
    fun x hx => toInt_ofInt_of_fits (hfits _ hx)
  refine ⟨d, hd, slot, item, ?_, hexact item.price (by simp [productRow]),
    hexact slot.quantity (by simp [productRow])⟩
  change d.slotItem (Int32.ofInt slot.slotId).toInt = some (slot, item)
  rw [hexact slot.slotId (by simp [productRow]), hid]
  exact hslot

theorem shows_balanceGet {userId : Int32}
    (h : Fed Stmt.perform ReplyFits S (balanceGet userId) (.ret (.ok answer))) :
    (ReadOp.balanceGet userId).Shows S answer := by
  simp only [balanceGet, exec_bind, Prog.pure_eq] at h
  rcases h.of_call with hfail | ⟨d₀, _, _, h⟩
  · cases hfail.of_ret
  rcases fed_query (fun _ => rfl) h with hfail | hnone | ⟨d, row, hd, hrow, hfits, h⟩
  · cases hfail.of_ret
  · cases hnone.of_ret
  · obtain ⟨user, huser, rfl⟩ := Option.map_eq_some_iff.1 hrow
    cases h.of_ret
    exact ⟨d, hd, user, huser, _, rfl, toInt_ofInt_of_fits (hfits _ List.mem_cons_self)⟩

theorem shows_productsLoop (rows : ℕ) {last : Option Int} {ps : List Product}
    (hps : ∀ p ∈ ps, ShowsSlot S p)
    (h : Fed Stmt.perform ReplyFits S (productsLoop rows last ps) (.ret (.ok answer))) :
    ∃ ps', answer = .products ps' ∧ ∀ p ∈ ps', ShowsSlot S p := by
  induction rows generalizing last ps with
  | zero => cases h.of_ret
  | succ rows ih =>
    simp only [productsLoop, exec_bind] at h
    rcases fed_query (fun _ => rfl) h with hfail | hdone | ⟨d, row, hd, hrow, hfits, h⟩
    · cases hfail.of_ret
    · cases hdone.of_ret
      exact ⟨ps, rfl, hps⟩
    · obtain ⟨found, hnext, rfl⟩ := Option.map_eq_some_iff.1 hrow
      obtain ⟨slot, -, hslot⟩ := Option.bind_eq_some_iff.1 hnext
      apply ih _ h
      intro p hp
      rcases List.mem_append.1 hp with hold | hnew
      · exact hps p hold
      · rw [List.mem_singleton.1 hnew]
        exact showsSlot_row hd hslot hfits

theorem shows_productsList {rows : ℕ}
    (h : Fed Stmt.perform ReplyFits S (productsList rows) (.ret (.ok answer))) :
    (ReadOp.productsList rows).Shows S answer := by
  simp only [productsList, exec_bind, Prog.pure_eq] at h
  rcases h.of_call with hfail | ⟨d₀, _, _, h⟩
  · cases hfail.of_ret
  · exact shows_productsLoop rows (fun p hp => absurd hp List.not_mem_nil) h

theorem shows_productGet {slotId : Int32}
    (h : Fed Stmt.perform ReplyFits S (productGet slotId) (.ret (.ok answer))) :
    (ReadOp.productGet slotId).Shows S answer := by
  simp only [productGet, exec_bind, Prog.pure_eq] at h
  rcases h.of_call with hfail | ⟨d₀, _, _, h⟩
  · cases hfail.of_ret
  rcases fed_query (fun _ => rfl) h with hfail | hnone | ⟨d, row, hd, hrow, hfits, h⟩
  · cases hfail.of_ret
  · cases hnone.of_ret
  · obtain ⟨found, hslot, rfl⟩ := Option.map_eq_some_iff.1 hrow
    cases h.of_ret
    refine ⟨_, rfl, ?_⟩
    intro p hp
    rw [List.mem_singleton.1 hp]
    exact showsSlot_row hd hslot hfits

theorem ReadOp.shows_of_fed (op : ReadOp)
    (h : Fed Stmt.perform ReplyFits S op.prog (.ret (.ok answer))) : op.Shows S answer := by
  cases op with
  | balanceGet userId => exact shows_balanceGet h
  | productsList rows => exact shows_productsList h
  | productGet slotId => exact shows_productGet h

def SharedCall.reads : SharedCall → Bool
  | .txn _ => false
  | .read _ => true

/-- The committed database at one of the calls that the thread makes. -/
def CommittedDuring (calls : ι → SharedCall) (db : Db) (sched : List (ι × Bool)) (i : ι) (d : Db) :
    Prop :=
  some (i, d) ∈ trace (World.advance Stmt.perform) World.moment
    (World.start (fun i => (calls i).prog) db) sched

/-- Every value that a reader has returned is the value in a database that was committed at some
moment of the read. -/
def ReadsOnlyCommitted (calls : ι → SharedCall) (db : Db) (sched : List (ι × Bool)) : Prop :=
  ∀ i op answer, calls i = .read op →
    ((interleaved calls db sched).prog i).result = some (.ok answer) →
    op.Shows (CommittedDuring calls db sched i) answer

theorem readsOnlyCommitted_of_clean (calls : ι → SharedCall) (db : Db) (sched : List (ι × Bool))
    (hclean : Meets (World.advance Stmt.perform)
      (World.ReadsCommitted Stmt.perform ReplyFits fun i => (calls i).reads)
      (World.start (fun i => (calls i).prog) db) sched) : ReadsOnlyCommitted calls db sched := by
  intro i op answer hop hresult
  have hfed := fed_run hclean (i := i) (by simp only [hop, SharedCall.reads])
  have hret : (interleaved calls db sched).prog i = .ret (.ok answer) := by
    cases hprog : (interleaved calls db sched).prog i with
    | ret a =>
      rw [hprog] at hresult
      cases hresult
      rfl
    | call c next =>
      rw [hprog] at hresult
      cases hresult
  unfold interleaved at hret
  rw [hret, hop] at hfed
  exact op.shows_of_fed hfed

/-- A deposit and a look at the same balance. -/
def depositAndBalance : Bool → SharedCall
  | false => .txn (.balanceDeposit 1 100)
  | true => .read (.balanceGet 1)

/-- The balance is read after the COMMIT of the deposit. -/
def readAfterCommit : List (Bool × Bool) :=
  List.replicate 6 (false, false) ++ List.replicate 2 (true, false)

theorem readsOnlyCommitted_readAfterCommit :
    ((interleaved depositAndBalance seed readAfterCommit).prog true).result =
        some (.ok (.amount 100)) ∧
      ReadsOnlyCommitted depositAndBalance seed readAfterCommit :=
  ⟨by decide, readsOnlyCommitted_of_clean depositAndBalance seed readAfterCommit
    (by decide)⟩

/-- The balance is read between the upsert of the deposit and its log entry, whose INSERT then fails,
so that the deposit is rolled back. -/
def readBeforeRollback : List (Bool × Bool) :=
  [(false, false), (false, false), (false, false), (true, false), (true, false), (false, true),
    (false, false)]

theorem readsOnlyCommitted_not_always :
    ¬ ∀ (calls : Bool → SharedCall) (db : Db) (sched : List (Bool × Bool)),
      ReadsOnlyCommitted calls db sched := by
  intro h
  obtain ⟨d, hd, user, huser, -⟩ := h depositAndBalance seed readBeforeRollback true
    (.balanceGet 1) (.amount 100) rfl (by decide)
  have hnone : ∀ x ∈ trace (World.advance Stmt.perform) World.moment
      (World.start (fun i => (depositAndBalance i).prog) seed) readBeforeRollback,
      ∀ y ∈ x, y.2.findUser 1 = none := by
    decide
  have hmissing := hnone _ hd (true, d) rfl
  rw [show d.findUser 1 = some user from huser] at hmissing
  cases hmissing

end Sshnack
