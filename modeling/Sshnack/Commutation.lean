import Sshnack.ServiceChecks
import Sshnack.ServicePlans

/-!
# Independent operations commute

An operation is about one user, one slot or one item, and a purchase also about the item of its slot.
What it decides depends on these rows alone (and on which items there are, which no operation
changes), and its change leaves all other rows as they are. So two operations that are about different
rows give the same answers in either order, and the same tables up to the order of their rows.
-/

namespace Sshnack

open Txn Keyed

namespace Operation

def user : Operation → Option Int
  | purchase userId _ => some userId.toInt
  | deposit userId _ => some userId.toInt
  | reset userId => some userId.toInt
  | _ => none

def slot : Operation → Option Int
  | purchase _ slotId => some slotId.toInt
  | restock slotId _ => some slotId.toInt
  | _ => none

def item (t : Tables) : Operation → Option Int
  | purchase _ slotId => (t.findSlot slotId.toInt).map Slot.itemId
  | updatePrice itemId _ => some itemId.toInt
  | _ => none

end Operation

structure Independent (t : Tables) (op op' : Operation) : Prop where
  user : ∀ id, op.user = some id → op'.user ≠ some id
  slot : ∀ id, op.slot = some id → op'.slot ≠ some id
  item : ∀ id, op.item t = some id → op'.item t ≠ some id

theorem Independent.symm {t : Tables} {op op' : Operation} (h : Independent t op op') :
    Independent t op' op where
  user id hid hid' := h.user id hid' hid
  slot id hid hid' := h.slot id hid' hid
  item id hid hid' := h.item id hid' hid

/-- The tables have the same rows where the operation is at work, and the same items. -/
structure Agrees (op : Operation) (t t' : Tables) : Prop where
  user : ∀ id, op.user = some id → t'.findUser id = t.findUser id
  slot : ∀ id, op.slot = some id → t'.findSlot id = t.findSlot id
  item : ∀ id, op.item t = some id → t'.findItem id = t.findItem id
  itemIds : t'.itemIds = t.itemIds

theorem slotItem_of_agrees {userId slotId : Int32} {t t' : Tables}
    (h : Agrees (.purchase userId slotId) t t') :
    t'.slotItem slotId.toInt = t.slotItem slotId.toInt := by
  unfold Tables.slotItem
  rw [h.slot _ rfl]
  cases hslot : t.findSlot slotId.toInt with
  | none => rfl
  | some slot =>
    have hitem := h.item slot.itemId (by rw [Operation.item, hslot]; rfl)
    simp only [Option.bind_some, hitem]

theorem plan_of_agrees {op : Operation} {t t' : Tables} (h : Agrees op t t') :
    op.plan t' = op.plan t := by
  cases op with
  | purchase userId slotId =>
    rw [Operation.plan, Operation.plan, slotItem_of_agrees h, h.user _ rfl]
  | deposit userId amountGr => rw [Operation.plan, Operation.plan, h.user _ rfl]
  | reset userId => rw [Operation.plan, Operation.plan, h.user _ rfl]
  | restock slotId qty => rw [Operation.plan, Operation.plan, h.slot _ rfl]
  | updatePrice itemId priceGr => rfl

/-- The planned change meets the schema on both tables or on neither. -/
theorem valid_of_agrees {op : Operation} {t t' : Tables} {a : Answer} {c : Change} (ht : t.Valid)
    (ht' : t'.Valid) (h : Agrees op t t') (hplan : Plans t op a c) :
    (c.apply t').Valid ↔ (c.apply t).Valid := by
  cases hplan with
  | purchase userId slotId hslot hitem huser hquantity hbalance =>
    have huser' := (h.user _ rfl).trans huser
    have hslot' := (h.slot _ rfl).trans hslot
    rw [apply_purchaseChange, apply_purchaseChange, Tables.valid_purchased_iff ht huser hslot,
      Tables.valid_purchased_iff ht' huser' hslot', h.itemIds]
  | deposit userId amountGr hpos =>
    rw [apply_depositChange, Tables.valid_deposited_iff ht userId hpos, ← h.user _ rfl,
      apply_depositChange, Tables.valid_deposited_iff ht' userId hpos]
  | nothing userId huser hzero =>
    rw [apply_keep, apply_keep]
    exact iff_of_true ht' ht
  | refund userId huser hzero =>
    rw [apply_refundChange, apply_refundChange, Tables.valid_refunded_iff ht huser,
      Tables.valid_refunded_iff ht' ((h.user _ rfl).trans huser)]
  | restock slotId qty hpos hslot =>
    rw [apply_restockChange, apply_restockChange, Tables.valid_restocked_iff ht hslot hpos,
      Tables.valid_restocked_iff ht' ((h.slot _ rfl).trans hslot) hpos, h.itemIds]
  | updatePrice itemId priceGr hpos =>
    have hprice := inInt64_toInt priceGr
    rw [apply_repriceChange, apply_repriceChange]
    exact iff_of_true (Tables.valid_updatePrice ht' _ hprice) (Tables.valid_updatePrice ht _ hprice)

/-- The change touches only the rows that the operation is about; it adds no slot and no item. -/
structure Within (t : Tables) (op : Operation) (c : Change) : Prop where
  user : c.users.About User.userId op.user
  slot : c.stock.About Slot.slotId op.slot
  item : c.items.About Item.itemId (op.item t)
  noSlot : c.stock.inserts = false
  noItem : c.items.inserts = false

theorem within_keep (t : Tables) (op : Operation) : Within t op {} :=
  ⟨trivial, trivial, trivial, rfl, rfl⟩

theorem Plans.within {op : Operation} {t : Tables} {a : Answer} {c : Change} (h : Plans t op a c) :
    Within t op c := by
  cases h with
  | purchase userId slotId => exact ⟨⟨rfl, fun _ => rfl⟩, ⟨rfl, fun _ => rfl⟩, trivial, rfl, rfl⟩
  | deposit userId amountGr =>
    cases (t.findUser userId.toInt).isSome with
    | true => exact ⟨⟨rfl, fun _ => rfl⟩, trivial, trivial, rfl, rfl⟩
    | false => exact ⟨rfl, trivial, trivial, rfl, rfl⟩
  | nothing userId => exact within_keep t _
  | refund userId => exact ⟨⟨rfl, fun _ => rfl⟩, trivial, trivial, rfl, rfl⟩
  | restock slotId qty => exact ⟨trivial, ⟨rfl, fun _ => rfl⟩, trivial, rfl, rfl⟩
  | updatePrice itemId priceGr => exact ⟨trivial, trivial, ⟨rfl, fun _ => rfl⟩, rfl, rfl⟩

section Changes

variable {t : Tables} {op op' : Operation} {c c' : Change}

/-- A change within one operation leaves what an independent one reads. -/
theorem Within.agrees (h : Within t op c) (hindep : Independent t op op') :
    Agrees op' t (c.apply t) where
  user id hid := Edit.find_apply h.user fun hop => hindep.user id hop hid
  slot id hid := Edit.find_apply h.slot fun hop => hindep.slot id hop hid
  item id hid := Edit.find_apply h.item fun hop => hindep.item id hop hid
  itemIds := Edit.keys_apply h.item h.noItem

/-- The same rows in every table. Row ids and timestamps are not part of a row. -/
structure SameRows (t t' : Tables) : Prop where
  users : t.users.Perm t'.users
  items : t.items = t'.items
  stock : t.stock = t'.stock
  transactions : t.transactions.Perm t'.transactions
  stockLogs : t.stockLogs.Perm t'.stockLogs
  usersSeq : t.usersSeq = t'.usersSeq

theorem append_swap_perm {α : Type} (xs ys zs : List α) : (xs ++ ys ++ zs).Perm (xs ++ zs ++ ys) := by
  rw [List.append_assoc, List.append_assoc]
  exact List.perm_append_comm.append_left xs

theorem Within.sameRows (h : Within t op c) (h' : Within t op' c') (hindep : Independent t op op') :
    SameRows (c'.apply (c.apply t)) (c.apply (c'.apply t)) where
  users := Edit.apply_perm h'.user h.user hindep.symm.user
  items := Edit.apply_comm h'.item h.item hindep.symm.item (.inl h'.noItem)
  stock := Edit.apply_comm h'.slot h.slot hindep.symm.slot (.inl h'.noSlot)
  transactions := append_swap_perm _ _ _
  stockLogs := append_swap_perm _ _ _
  usersSeq := by
    simp only [Change.apply]
    cases c.users <;> cases c'.users <;> simp only [max_right_comm]

end Changes

namespace Operation

variable {d d' : Db} {op : Operation}

/-- The plan, once the schema has accepted or refused its change. -/
def verdict (op : Operation) (d : Db) : Except Int32 (Answer × Change) :=
  match op.plan d.toTables with
  | .error rc => .error rc
  | .ok (a, c) => if (c.apply d.toTables).Valid then .ok (a, c) else .error (-1)

/-- The change that the operation makes; none if it fails. -/
def made (op : Operation) (d : Db) : Change :=
  match op.verdict d with
  | .error _ => {}
  | .ok (_, c) => c

theorem settle_eq_verdict (op : Operation) (d : Db) :
    (settle d (op.plan d.toTables)).1 = (op.verdict d).map Prod.fst ∧
      (settle d (op.plan d.toTables)).2.toTables = (op.made d).apply d.toTables := by
  unfold made verdict
  cases op.plan d.toTables with
  | error rc => exact ⟨rfl, (apply_keep d.toTables).symm⟩
  | ok p =>
    obtain ⟨a, c⟩ := p
    simp only [settle]
    by_cases hvalid : (c.apply d.toTables).Valid
    · rw [stored_of_valid hvalid, if_pos hvalid]
      exact ⟨rfl, rfl⟩
    · rw [stored_of_not_valid hvalid, if_neg hvalid]
      exact ⟨rfl, (apply_keep d.toTables).symm⟩

theorem made_within (op : Operation) (d : Db) : Within d.toTables op (op.made d) := by
  unfold made verdict
  cases hplan : op.plan d.toTables with
  | error rc => exact within_keep d.toTables op
  | ok p =>
    obtain ⟨a, c⟩ := p
    by_cases hvalid : (c.apply d.toTables).Valid
    · simp only [if_pos hvalid]
      exact (Plans.of_plan hplan).within
    · simp only [if_neg hvalid]
      exact within_keep d.toTables op

theorem verdict_of_agrees (h : Agrees op d.toTables d'.toTables) :
    op.verdict d' = op.verdict d := by
  unfold verdict
  rw [plan_of_agrees h]
  cases hplan : op.plan d.toTables with
  | error rc => rfl
  | ok p =>
    obtain ⟨a, c⟩ := p
    simp only [valid_of_agrees d.valid d'.valid h (.of_plan hplan)]

end Operation

/-- After an independent operation, an operation gives the answer and makes the change that it would
have given and made before. -/
theorem serve_of_independent {d : Db} {op op' : Operation}
    (hindep : Independent d.toTables op op') :
    outcome (serve ⟨d, none⟩ op.quiet) op'.quiet = outcome ⟨d, none⟩ op'.quiet ∧
      (serve (serve ⟨d, none⟩ op.quiet) op'.quiet).committed.toTables =
        (op'.made d).apply ((op.made d).apply d.toTables) := by
  obtain ⟨-, htables⟩ := op.settle_eq_verdict d
  rw [serve_quiet]
  generalize (settle d (op.plan d.toTables)).2 = d₁ at htables
  have hagrees : Agrees op' d.toTables d₁.toTables := by
    rw [htables]
    exact (op.made_within d).agrees hindep
  have hverdict := Operation.verdict_of_agrees hagrees
  constructor
  · rw [outcome_quiet, outcome_quiet, (op'.settle_eq_verdict d₁).1, (op'.settle_eq_verdict d).1,
      hverdict]
  · rw [serve_quiet, (op'.settle_eq_verdict d₁).2, htables, Operation.made, hverdict]
    rfl

/-- Two fault-free operations on different users, slots and items answer the same in either order and
leave the same rows. -/
theorem independent_commute (d : Db) (op op' : Operation)
    (hindep : Independent d.toTables op op') :
    outcome (serve ⟨d, none⟩ op.quiet) op'.quiet = outcome ⟨d, none⟩ op'.quiet ∧
    outcome (serve ⟨d, none⟩ op'.quiet) op.quiet = outcome ⟨d, none⟩ op.quiet ∧
    SameRows (serve (serve ⟨d, none⟩ op.quiet) op'.quiet).committed.toTables
      (serve (serve ⟨d, none⟩ op'.quiet) op.quiet).committed.toTables := by
  obtain ⟨hanswer, htables⟩ := serve_of_independent hindep
  obtain ⟨hanswer', htables'⟩ := serve_of_independent hindep.symm
  refine ⟨hanswer, hanswer', ?_⟩
  rw [htables, htables']
  exact (op.made_within d).sameRows (op'.made_within d) hindep

theorem independent_commute_deposit_restock :
    SameRows
      (serve (serve start (Operation.deposit 1 500).quiet)
        (Operation.restock 11 3).quiet).committed.toTables
      (serve (serve start (Operation.restock 11 3).quiet)
        (Operation.deposit 1 500).quiet).committed.toTables := by
  refine (independent_commute seed (.deposit 1 500) (.restock 11 3) ⟨?_, ?_, ?_⟩).2.2
  · rintro id - ⟨⟩
  · rintro id ⟨⟩
  · rintro id ⟨⟩

end Sshnack
