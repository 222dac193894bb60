import Sshnack.AccessPolicy
import Sshnack.EffectFrames

/-!
# What a request can change

The effect of a service call is confined to the rows the call is about, and the access policy says
which calls a request can cause. Together they bound what any bytes on a socket can do to the
database.
-/

namespace Sshnack

open Txn

variable {d d' : Db} {call : ServiceCall} {a : Except Int32 Answer}

theorem quantity_le_of_updateQuantity (d : Db) {id : Int} {s s' : Slot} (hs : s ∈ d.stock)
    (hs' : s' ∈ (d.updateQuantity id (· - 1)).stock) (hid : s'.slotId = s.slotId) :
    s'.quantity ≤ s.quantity := by
  obtain ⟨s₀, hs₀, rfl⟩ := List.mem_map.1 hs'
  have hid₀ : s₀.slotId = s.slotId := by
    rw [← hid]
    split_ifs <;> rfl
  rw [d.slot_eq_of_id hs₀ hs hid₀]
  split_ifs
  · exact Int.sub_le_self _ (by decide)
  · exact le_rfl

theorem mem_updateBalance {t : Tables} {id : Int} {f : Int → Int} {u : User}
    (h : u ∈ (t.updateBalance id f).users) :
    u ∈ t.users ∨ (u.userId = id ∧ id ∈ t.userIds) := by
  obtain ⟨v, hv, rfl⟩ := List.mem_map.1 h
  by_cases hid : v.userId = id
  · right
    rw [if_pos hid]
    exact ⟨hid, hid ▸ List.mem_map_of_mem hv⟩
  · left
    rw [if_neg hid]
    exact hv

/-- What a request may do to the database. -/
structure AuthorizationFrame (req : Request) (internal : Bool) (d d' : Db) : Prop where
  reading : req.method = some .get → d' = d
  anonymous : req.auth.role = .none → internal = false → d' = d
  prices : d'.items ≠ d.items → req.auth.role = .admin
  slots : d'.slotIds = d.slotIds
  quantities : ∀ s ∈ d.stock, ∀ s' ∈ d'.stock, s'.slotId = s.slotId → s.quantity < s'.quantity →
    req.auth.role = .admin
  balances : ∀ u ∈ d.users, ∀ u' ∈ d'.users, u'.userId = u.userId → u'.balance ≠ u.balance →
    u.userId = req.auth.userId.toInt
  created : ∀ u ∈ d'.users, u.userId ∉ d.userIds →
    (route req internal = .ok .postDeposit ∧ u.userId = req.auth.userId.toInt) ∨
      (route req internal = .ok .lookupUser ∧ internal = true ∧ u.balance = 0)

theorem authorizationFrame_same (req : Request) (internal : Bool) (d : Db) :
    AuthorizationFrame req internal d d where
  reading := fun _ => rfl
  anonymous := fun _ _ => rfl
  prices := fun h => absurd rfl h
  slots := rfl
  quantities := by
    intro s hs s' hs' hid hlt
    rw [d.slot_eq_of_id hs' hs hid] at hlt
    exact absurd hlt (lt_irrefl _)
  balances := by
    intro u hu u' hu' hid hne
    exact absurd (congrArg User.balance (d.user_eq_of_id hu' hu hid)) hne
  created := fun u hu hnew => absurd (List.mem_map_of_mem hu) hnew

variable {req : Request} {fn : HandlerFn}

theorem Granted.account {userId : Int32} (h : Granted req fn call)
    (haccount : call.account = some userId) : userId = req.auth.userId := by
  cases h <;> cases haccount <;> rfl

/-- A granted call reads, or it has another method than GET and, unless it is a lookup, a role. -/
theorem Granted.read_or_role (h : Granted req fn call) : (∃ op, call = .read op) ∨
    (fn.method ≠ .get ∧ (req.auth.role = .none → fn = .lookupUser)) := by
  cases h with
  | listing rows => exact .inl ⟨_, rfl⟩
  | balance => exact .inl ⟨_, rfl⟩
  | restock _ _ hrole => exact .inr ⟨by decide, fun hnone => by rw [hnone] at hrole; cases hrole⟩
  | price _ _ hrole => exact .inr ⟨by decide, fun hnone => by rw [hnone] at hrole; cases hrole⟩
  | deposit _ hrole => exact .inr ⟨by decide, fun hnone => absurd hnone hrole⟩
  | purchase _ hrole => exact .inr ⟨by decide, fun hnone => absurd hnone hrole⟩
  | reset hrole => exact .inr ⟨by decide, fun hnone => absurd hnone hrole⟩
  | lookup => exact .inr ⟨by decide, fun _ => rfl⟩

/-- A user row that a granted call changed or created belongs to the caller, or is new and empty. -/
theorem Granted.changed_user (h : Granted req fn call) (he : Effect d call a d') {u : User}
    (hu : u ∈ d'.users) (hold : u ∉ d.users) :
    (u.userId = req.auth.userId.toInt ∧ (u.userId ∈ d.userIds ∨ fn = .postDeposit)) ∨
      (fn = .lookupUser ∧ u.userId = d.usersSeq + 1 ∧ u.balance = 0) := by
  rcases he.users with hsame | ⟨userId, f, haccount, husers⟩ | ⟨userId, amountGr, rfl, husers⟩ |
    ⟨fingerprint, id, rfl, rfl, _, husers⟩
  · rw [hsame] at hu
    exact absurd hu hold
  · rw [husers] at hu
    obtain ⟨hid, hmem⟩ := (mem_updateBalance hu).resolve_left hold
    rw [hid, ← h.account haccount]
    exact .inl ⟨rfl, .inl hmem⟩
  · rw [husers] at hu
    rw [List.mem_singleton.1 ((List.mem_append.1 hu).resolve_left hold)]
    cases h
    exact .inl ⟨rfl, .inr rfl⟩
  · rw [husers] at hu
    rw [List.mem_singleton.1 ((List.mem_append.1 hu).resolve_left hold)]
    cases h
    exact .inr ⟨rfl, rfl, rfl⟩

theorem Granted.frame {internal : Bool} (h : Granted req fn call)
    (hroute : route req internal = .ok fn) (he : Effect d call a d') :
    AuthorizationFrame req internal d d' := by
  obtain ⟨hmethod, hlookup⟩ := route_ok hroute
  rcases h.read_or_role with ⟨op, rfl⟩ | ⟨hwrites, hrole⟩
  · have hsame : d' = d := by cases he <;> rfl
    rw [hsame]
    exact authorizationFrame_same req internal d
  constructor
  · intro hget
    rw [hmethod] at hget
    exact absurd (Option.some.inj hget) hwrites
  · intro hnone hpublic
    have hinternal := hlookup (hrole hnone)
    rw [hpublic] at hinternal
    cases hinternal
  · intro hitems
    rcases he.items with hsame | ⟨itemId, priceGr, rfl, _⟩
    · exact absurd hsame hitems
    · cases h
      assumption
  · have hslots := congrArg (List.map Prod.fst) he.slots
    rw [List.map_map, List.map_map] at hslots
    exact hslots
  · intro s hs s' hs' hid hlt
    rcases he.stock with hsame | ⟨_, slotId, _, hstock⟩ | ⟨slotId, qty, rfl, _⟩
    · rw [hsame] at hs'
      exact (authorizationFrame_same req internal d).quantities s hs s' hs' hid hlt
    · rw [hstock] at hs'
      have hle := quantity_le_of_updateQuantity d hs hs' hid
      omega
    · cases h
      assumption
  · intro u hu u' hu' hid hne
    have hold : u' ∉ d.users :=
      fun hmem => hne (congrArg User.balance (d.user_eq_of_id hmem hu hid))
    rcases h.changed_user he hu' hold with ⟨hcaller, _⟩ | ⟨_, hnext, _⟩
    · rw [← hid, hcaller]
    · have hseq := d.valid.users.sequence.2.2 u hu
      omega
  · intro u hu hnew
    have hold : u ∉ d.users := fun hmem => hnew (List.mem_map_of_mem hmem)
    rcases h.changed_user he hu hold with ⟨hcaller, hmem | rfl⟩ | ⟨rfl, _, hzero⟩
    · exact absurd hmem hnew
    · exact .inl ⟨hroute, hcaller⟩
    · exact .inr ⟨hroute, hlookup rfl, hzero⟩

/-- Whatever bytes arrive on a socket and whichever SQLite calls fail, `handle_client` stays within
what the request is authorized to do, and without a request it does nothing. -/
theorem handleClient_authorized (rows : ℕ) (adminToken : CString) (internal : Bool)
    (chunks : List (List UInt8)) (flt : ℕ → Bool) (d : Db) :
    ∃ d', ((handleClient rows adminToken internal chunks).run Stmt.perform flt ⟨d, none⟩).2 =
        ⟨d', none⟩ ∧
      (received adminToken chunks = none → d' = d) ∧
      ∀ req, received adminToken chunks = some req → AuthorizationFrame req internal d d' := by
  obtain ⟨d', hrun, rfl | ⟨req, fn, call, a, hreq, hroute, hgranted, heffect⟩⟩ :=
    handleClient_effect rows (fun req fn => fn.within rows req) adminToken internal chunks flt d
  · exact ⟨d', hrun, fun _ => rfl, fun req _ => authorizationFrame_same req internal d'⟩
  · refine ⟨d', hrun, ?_, ?_⟩
    · intro hnone
      rw [hreq] at hnone
      cases hnone
    · intro req' hreq'
      rw [hreq] at hreq'
      rw [← Option.some.inj hreq']
      exact hgranted.frame hroute heffect

end Sshnack
