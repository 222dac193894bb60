import Sshnack.PriceKeepers
import Sshnack.TxnTurns

/-!
# Price updates replayed

`product_update_price` is the one writer without a transaction of its own. Its UPDATE joins whatever
transaction is open on the handle and is lost when the owner of that transaction rolls back. As long
as no ROLLBACK undoes a change of the items (`PriceSafe`), every turn of the workers keeps `Replayed`:
the visible items are the initial ones with the updates performed so far applied in order.
-/

namespace Sshnack

open Txn Machine

variable {ι : Type} [DecidableEq ι]

abbrev Workers (ι : Type) := World Db Stmt Row (Except Int32 Answer) ι

structure PriceWrite (ι : Type) where
  thread : ι
  itemId : Int32
  priceGr : Int32
  deriving DecidableEq

/-- The UPDATE of a price that this turn performs, if it does. -/
def priceWrite (w : Workers ι) (x : ι × Bool) : List (PriceWrite ι) :=
  match w.prog x.1 with
  | .call (.step (.setPrice priceGr itemId)) _ =>
      if (w.conn.answer Stmt.perform x.2 (.step (.setPrice priceGr itemId))).1 = .done then
        [⟨x.1, itemId, priceGr⟩]
      else []
  | _ => []

def serving (calls : ι → ServiceCall) (db : Db) : Workers ι :=
  World.start (fun i => (calls i).prog) db

/-- A ROLLBACK is made only when the open transaction has not changed the items. -/
def PriceSafe (w : Workers ι) (x : ι × Bool) : Prop :=
  (w.prog x.1).nextCall = some .rollback → ∀ d ∈ w.conn.txn, d.items = w.conn.committed.items

instance (w : Workers ι) (x : ι × Bool) : Decidable (PriceSafe w x) :=
  inferInstanceAs (Decidable (_ → _))

def setPrice (items : List Item) (e : PriceWrite ι) : List Item :=
  items.map fun i => if i.itemId = e.itemId.toInt then { i with price := e.priceGr.toInt } else i

def replayPrices (ws : List (PriceWrite ι)) (items : List Item) : List Item := ws.foldl setPrice items

/-- Where a call of `product_update_price` stands, and whether it has performed its UPDATE. -/
inductive UpdaterAt (itemId priceGr : Int32) : Service → Bool → Prop
  | starting : UpdaterAt itemId priceGr (productUpdatePrice itemId priceGr) false
  | prepared (next : Reply Row → Service) (hdone : next .done = .ret (.ok (.code 0)))
      (hbad : ∀ r, r ≠ .done → ∃ rc, next r = .ret (.error rc)) :
      UpdaterAt itemId priceGr (.call (.step (.setPrice priceGr itemId)) next) false
  | failed (rc : Int32) : UpdaterAt itemId priceGr (.ret (.error rc)) false
  | written : UpdaterAt itemId priceGr (.ret (.ok (.code 0))) true

structure Replayed (calls : ι → ServiceCall) (db : Db) (ws : List (PriceWrite ι)) (w : Workers ι) :
    Prop where
  items : w.conn.view.items = replayPrices ws db.items
  keeping : ∀ i, (∀ itemId priceGr, calls i ≠ .updatePrice itemId priceGr) → KeepsPrices (w.prog i)
  updating : ∀ i itemId priceGr, calls i = .updatePrice itemId priceGr →
    UpdaterAt itemId priceGr (w.prog i) (decide (⟨i, itemId, priceGr⟩ ∈ ws))
  performed : ∀ e ∈ ws, calls e.thread = .updatePrice e.itemId e.priceGr

theorem productUpdatePrice_cases (itemId priceGr : Int32) :
    (∃ rc, productUpdatePrice itemId priceGr = .ret (.error rc)) ∨
      ∃ next, productUpdatePrice itemId priceGr = .call (.prepare (.setPrice priceGr itemId)) next ∧
        ∀ r, UpdaterAt itemId priceGr (next r) false := by
  simp only [productUpdatePrice, exec_bind, Prog.pure_eq]
  split_ifs with hpos
  · exact .inl ⟨_, rfl⟩
  · refine .inr ⟨_, rfl, fun r => ?_⟩
    by_cases hr : r = .ok
    · rw [if_neg (not_not.2 hr)]
      refine .prepared _ rfl fun r hr => ⟨-1, ?_⟩
      exact if_pos hr
    · rw [if_pos hr]
      exact .failed (-1)

variable {calls : ι → ServiceCall} {db : Db} {ws : List (PriceWrite ι)} {w : Workers ι}
  {x : ι × Bool}

theorem replayed_start (calls : ι → ServiceCall) (db : Db) :
    Replayed calls db [] (serving calls db) where
  items := rfl
  keeping i hi := by
    cases hcall : calls i with
    | txn op =>
      simp only [serving, World.start, hcall]
      exact op.keepsPrices
    | updatePrice itemId priceGr => exact absurd hcall (hi itemId priceGr)
    | read op =>
      simp only [serving, World.start, hcall]
      exact op.keepsPrices
  updating i itemId priceGr hi := by
    simp only [serving, World.start, hi, List.not_mem_nil, decide_false]
    exact .starting
  performed e he := by cases he

/-- The thread of the label moved to `p` without performing an UPDATE of a price. -/
theorem Replayed.idle (h : Replayed calls db ws w) {p : Service} {k : Conn Db} (o : Option ι)
    (cs : List ι) (hitems : k.view.items = w.conn.view.items)
    (hkeep : KeepsPrices (w.prog x.1) → KeepsPrices p)
    (hupd : ∀ itemId priceGr b, UpdaterAt itemId priceGr (w.prog x.1) b →
      UpdaterAt itemId priceGr p b) :
    Replayed calls db ws ⟨k, Function.update w.prog x.1 p, o, cs⟩ where
  items := hitems.trans h.items
  keeping i hi := by
    by_cases hix : i = x.1
    · subst hix
      simpa only [Function.update_self] using hkeep (h.keeping _ hi)
    · simpa only [Function.update_of_ne hix] using h.keeping i hi
  updating i itemId priceGr hi := by
    by_cases hix : i = x.1
    · subst hix
      simpa only [Function.update_self] using hupd _ _ _ (h.updating _ itemId priceGr hi)
    · simpa only [Function.update_of_ne hix] using h.updating i itemId priceGr hi
  performed := h.performed

/-- The thread of the label performed its UPDATE and returned 0. -/
theorem Replayed.write (h : Replayed calls db ws w) {itemId priceGr : Int32} {k : Conn Db}
    (o : Option ι) (cs : List ι) (hcall : calls x.1 = .updatePrice itemId priceGr)
    (hitems : k.view.items = setPrice w.conn.view.items (⟨x.1, itemId, priceGr⟩ : PriceWrite ι)) :
    Replayed calls db (ws ++ [⟨x.1, itemId, priceGr⟩])
      ⟨k, Function.update w.prog x.1 (.ret (.ok (.code 0))), o, cs⟩ where
  items := by
    rw [replayPrices, List.foldl_append, hitems, h.items]
    rfl
  keeping i hi := by
    have hix : i ≠ x.1 := by
      rintro rfl
      exact hi itemId priceGr hcall
    simpa only [Function.update_of_ne hix] using h.keeping i hi
  updating i itemId' priceGr' hi := by
    by_cases hix : i = x.1
    · subst hix
      obtain ⟨rfl, rfl⟩ : itemId = itemId' ∧ priceGr = priceGr' := by
        rw [hcall] at hi
        injection hi with h₁ h₂
        exact ⟨h₁, h₂⟩
      simp only [Function.update_self, List.mem_append, List.mem_singleton, or_true, decide_true]
      exact .written
    · have hne : (⟨i, itemId', priceGr'⟩ : PriceWrite ι) ≠ ⟨x.1, itemId, priceGr⟩ := by
        intro he
        exact hix (congrArg PriceWrite.thread he)
      simp only [Function.update_of_ne hix, List.mem_append, List.mem_singleton, hne, or_false]
      exact h.updating i itemId' priceGr' hi
  performed e he := by
    rcases List.mem_append.1 he with he | he
    · exact h.performed e he
    · rw [List.mem_singleton.1 he]
      exact hcall

omit [DecidableEq ι] in
theorem priceWrite_of_ret {a : Except Int32 Answer} (hprog : w.prog x.1 = .ret a) :
    priceWrite w x = [] := by
  simp only [priceWrite, hprog]

omit [DecidableEq ι] in
theorem priceWrite_of_keeping {c : Call Stmt} {next : Reply Row → Service}
    (hprog : w.prog x.1 = .call c next) (hc : setsPrice c = false) : priceWrite w x = [] := by
  unfold priceWrite
  rw [hprog]
  split
  · rename_i heq
    cases heq
    cases hc
  · rfl

theorem UpdaterAt.prepare {itemId priceGr : Int32} {c : Call Stmt} {next : Reply Row → Service}
    {b : Bool} (h : UpdaterAt itemId priceGr (.call c next) b) (hc : setsPrice c = false)
    (r : Reply Row) : UpdaterAt itemId priceGr (next r) b := by
  generalize hp : Prog.call c next = p at h
  cases h with
  | starting =>
    rcases productUpdatePrice_cases itemId priceGr with ⟨rc, hret⟩ | ⟨next', hcall, hnext⟩
    · rw [hret] at hp
      cases hp
    · rw [hcall] at hp
      cases hp
      exact hnext r
  | prepared next' hdone hbad =>
    cases hp
    cases hc
  | failed rc => cases hp
  | written => cases hp

/-- A thread about to step the UPDATE of a price is a call of `product_update_price` for it. -/
theorem UpdaterAt.update {itemId priceGr itemId' priceGr' : Int32} {next : Reply Row → Service}
    {b : Bool} (h : UpdaterAt itemId' priceGr' (.call (.step (.setPrice priceGr itemId)) next) b) :
    itemId' = itemId ∧ priceGr' = priceGr ∧ b = false ∧ next .done = .ret (.ok (.code 0)) ∧
      ∀ r, r ≠ .done → ∃ rc, next r = .ret (.error rc) := by
  generalize hp : Prog.call (.step (.setPrice priceGr itemId)) next = p at h
  cases h with
  | starting =>
    rcases productUpdatePrice_cases itemId' priceGr' with ⟨rc, hret⟩ | ⟨next', hcall, hnext⟩
    · rw [hret] at hp
      cases hp
    · rw [hcall] at hp
      cases hp
  | prepared next' hdone hbad =>
    cases hp
    exact ⟨rfl, rfl, rfl, hdone, hbad⟩
  | failed rc => cases hp
  | written => cases hp

omit [DecidableEq ι] in
/-- The UPDATE of a price either sets it and is answered `done`, or changes nothing. -/
theorem answer_setPrice (k : Conn Db) (fault : Bool) (itemId priceGr : Int32) (i : ι) :
    (k.answer Stmt.perform fault (.step (.setPrice priceGr itemId))).1 = .done ∧
      (k.answer Stmt.perform fault (.step (.setPrice priceGr itemId))).2.view.items =
        setPrice k.view.items (⟨i, itemId, priceGr⟩ : PriceWrite ι) ∨
    (k.answer Stmt.perform fault (.step (.setPrice priceGr itemId))).1 ≠ .done ∧
      (k.answer Stmt.perform fault (.step (.setPrice priceGr itemId))).2 = k := by
  cases fault with
  | true => exact .inr ⟨by simp, rfl⟩
  | false =>
    rw [Conn.answer_quiet]
    cases ht : (k.view.updatePrice itemId.toInt priceGr.toInt).check with
    | none =>
      rw [Conn.perform_step_none (by simp only [Stmt.perform, ht, Option.map_none])]
      exact .inr ⟨by simp, rfl⟩
    | some d =>
      rw [Conn.perform_step_done (d := d) (by simp only [Stmt.perform, ht, Option.map_some])]
      refine .inl ⟨rfl, ?_⟩
      rw [Conn.view_write, Tables.check_eq_some_iff.1 ht]
      rfl

theorem Replayed.update (h : Replayed calls db ws w) {itemId priceGr : Int32}
    {next : Reply Row → Service}
    (hprog : w.prog x.1 = .call (.step (.setPrice priceGr itemId)) next) :
    Replayed calls db (ws ++ priceWrite w x) (w.turn Stmt.perform x) := by
  have hcall : calls x.1 = .updatePrice itemId priceGr := by
    by_contra hne
    by_cases hupd : ∃ itemId' priceGr', calls x.1 = .updatePrice itemId' priceGr'
    · obtain ⟨itemId', priceGr', hcall⟩ := hupd
      have hat := h.updating x.1 itemId' priceGr' hcall
      rw [hprog] at hat
      obtain ⟨rfl, rfl, _⟩ := hat.update
      exact hne hcall
    · have hkeep := h.keeping x.1 fun itemId' priceGr' hcall => hupd ⟨itemId', priceGr', hcall⟩
      rw [hprog] at hkeep
      cases hkeep.1
  have hat := h.updating x.1 itemId priceGr hcall
  rw [hprog] at hat
  obtain ⟨_, _, _, hdone, hbad⟩ := hat.update
  have hfault : (x.2 && Call.mayFail (Call.step (Stmt.setPrice priceGr itemId))) = x.2 :=
    Bool.and_true x.2
  rcases ha : w.conn.answer Stmt.perform x.2 (.step (.setPrice priceGr itemId)) with ⟨r, k⟩
  have hcases := answer_setPrice w.conn x.2 itemId priceGr x.1
  rw [ha] at hcases
  have hturn := World.turn_call Stmt.perform hprog (r := r) (k := k) (by rw [hfault, ha])
  rw [hturn]
  rcases hcases with ⟨rfl, hitems⟩ | ⟨hr, rfl⟩
  · have hws : priceWrite w x = [⟨x.1, itemId, priceGr⟩] := by
      simp only [priceWrite, hprog, ha, if_true]
    rw [hws, hdone]
    exact h.write _ _ hcall hitems
  · have hws : priceWrite w x = [] := by
      simp only [priceWrite, hprog, ha]
      exact if_neg hr
    obtain ⟨rc, hrc⟩ := hbad r hr
    rw [hws, List.append_nil, hrc]
    apply h.idle _ _ rfl
    · intro _
      trivial
    · intro itemId' priceGr' b hupd
      rw [hprog] at hupd
      obtain ⟨_, _, rfl, _⟩ := hupd.update
      exact .failed rc

theorem setsPrice_eq_true {c : Call Stmt} (h : ¬ setsPrice c = false) :
    ∃ priceGr itemId, c = .step (.setPrice priceGr itemId) := by
  unfold setsPrice at h
  split at h
  · exact ⟨_, _, rfl⟩
  · exact absurd rfl h

theorem Replayed.turn (h : Replayed calls db ws w) (hsafe : PriceSafe w x) :
    Replayed calls db (ws ++ priceWrite w x) (w.turn Stmt.perform x) := by
  cases hprog : w.prog x.1 with
  | ret a =>
    rw [priceWrite_of_ret hprog, List.append_nil, World.turn_ret _ hprog]
    exact h
  | call c next =>
    by_cases hc : setsPrice c = false
    · rcases ha : w.conn.answer Stmt.perform (x.2 && c.mayFail) c with ⟨r, k⟩
      have hitems := answer_items hc (x.2 && c.mayFail) (k := w.conn) (by
        rintro rfl
        apply hsafe
        rw [hprog]
        rfl)
      rw [ha] at hitems
      rw [World.turn_call _ hprog ha, priceWrite_of_keeping hprog hc, List.append_nil]
      apply h.idle _ _ hitems
      · rw [hprog]
        intro hkeep
        exact hkeep.2 r
      · intro itemId priceGr b hupd
        rw [hprog] at hupd
        exact hupd.prepare hc r
    · obtain ⟨priceGr, itemId, rfl⟩ := setsPrice_eq_true hc
      exact h.update hprog

end Sshnack
