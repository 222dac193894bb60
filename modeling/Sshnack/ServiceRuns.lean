import Sshnack.ServiceEffects
import Sshnack.Machine
import Sshnack.Seed

/-!
# Service calls one after another

A run starts from the seed with no transaction open; each label is a call together with the SQLite
calls of it that fail. Every call leaves the connection without an open transaction and with one of
the effects of `Effect`, so an invariant of the effects is an invariant of every reachable database.
-/

namespace Sshnack

open Txn

/-- One service call and, for each SQLite call it makes, whether that call fails. -/
abbrev FaultyCall := ServiceCall × (ℕ → Bool)

def serve (k : Conn Db) (x : FaultyCall) : Conn Db := (x.1.prog.run Stmt.perform x.2 k).2

/-- The exit through which the call leaves. -/
def outcome (k : Conn Db) (x : FaultyCall) : Except Int32 Answer :=
  (x.1.prog.run Stmt.perform x.2 k).1

def start : Conn Db := ⟨seed, none⟩

/-- The five operations end with no transaction open, and a failure exit leaves every table as it
was. -/
theorem txnOp_all_or_nothing (op : TxnOp) (flt : ℕ → Bool) (db : Db) :
    (serve ⟨db, none⟩ (.txn op, flt)).txn = none ∧
      ∀ rc, outcome ⟨db, none⟩ (.txn op, flt) = .error rc →
        (serve ⟨db, none⟩ (.txn op, flt)).committed = db :=
  ⟨(op.bracketed.contained Stmt.perform flt db).closed,
    (op.bracketed.contained Stmt.perform flt db).kept⟩

theorem run_updatePrice (d : Db) (itemId priceGr : Int32) (flt : ℕ → Bool) :
    ∃ a d', (productUpdatePrice itemId priceGr).run Stmt.perform flt ⟨d, none⟩ =
      (a, ⟨d', none⟩) ∧ Effect d (.updatePrice itemId priceGr) a d' := by
  simp only [productUpdatePrice, exec_bind, Prog.pure_eq]
  split_ifs with hpos
  · exact ⟨_, d, rfl, .failed _ _⟩
  · cases h₀ : flt 0 with
    | true => exact ⟨_, d, Prog.run_call_fault _ _ _ h₀ rfl, .failed _ (-1)⟩
    | false =>
      rw [Prog.run_call_quiet _ _ _ _ h₀]
      cases h₁ : flt 1 with
      | true =>
        exact ⟨_, d, Prog.run_call_fault (f := fun n => flt (n + 1)) _ _ _ h₁ rfl, .failed _ (-1)⟩
      | false =>
        have hprep : (Conn.mk d none).perform Stmt.perform (.prepare (.setPrice priceGr itemId)) =
          (.ok, ⟨d, none⟩) := rfl
        simp only [hprep, ne_eq, not_true_eq_false, if_false]
        rw [Prog.run_call_quiet (f := fun n => flt (n + 1)) _ _ _ _ h₁]
        cases ht : (d.updatePrice itemId.toInt priceGr.toInt).check with
        | none =>
          rw [Conn.perform_step_none (by simp only [Conn.view_none, Stmt.perform, ht, Option.map_none])]
          exact ⟨_, d, rfl, .failed _ (-1)⟩
        | some d' =>
          rw [Conn.perform_step_done (d := d')
            (by simp only [Conn.view_none, Stmt.perform, ht, Option.map_some])]
          exact ⟨_, d', rfl, .repriced itemId priceGr d' (Int32.not_le.1 hpos)
            (Tables.check_eq_some_iff.1 ht)⟩

/-- Whatever fails, a service call ends with no transaction open and one of its listed effects. -/
theorem serve_effect (d : Db) (x : FaultyCall) : ∃ d', serve ⟨d, none⟩ x = ⟨d', none⟩ ∧
    Effect d x.1 (outcome ⟨d, none⟩ x) d' := by
  obtain ⟨call, flt⟩ := x
  cases call with
  | txn op =>
    unfold serve outcome ServiceCall.prog
    rcases op.bracketed.run_cases Stmt.perform flt d with ⟨rc, h⟩ | h
    · exact ⟨d, by rw [h], by rw [h]; exact .failed _ rc⟩
    · exact ⟨_, by rw [h], by rw [h]; exact op.effect d⟩
  | updatePrice itemId priceGr =>
    obtain ⟨a, d', h, heffect⟩ := run_updatePrice d itemId priceGr flt
    exact ⟨d', congrArg Prod.snd h, by simpa only [outcome, ServiceCall.prog, h] using heffect⟩
  | read op => exact ⟨d, op.reading.run flt _, .read op _⟩

/-- No transaction is open and the database satisfies `I`. -/
def Settled (I : Db → Prop) (k : Conn Db) : Prop := k.txn = none ∧ I k.committed

variable {P : Db → ServiceCall → Prop} {I : Db → Prop}

theorem Settled.serve (hstep : ∀ d call a d', I d → P d call → Effect d call a d' → I d')
    {k : Conn Db} {x : FaultyCall} (hk : Settled I k) (hP : P k.committed x.1) :
    Settled I (serve k x) := by
  obtain ⟨d, t⟩ := k
  obtain ⟨rfl, hd⟩ := hk
  obtain ⟨d', hserve, heffect⟩ := serve_effect d x
  rw [hserve]
  exact ⟨rfl, hstep d x.1 _ d' hd hP heffect⟩

theorem Settled.effect {k : Conn Db} (hk : Settled I k) (x : FaultyCall) :
    Effect k.committed x.1 (outcome k x) (Sshnack.serve k x).committed := by
  obtain ⟨d, t⟩ := k
  obtain ⟨rfl, hd⟩ := hk
  obtain ⟨d', hserve, heffect⟩ := serve_effect d x
  rw [hserve]
  exact heffect

/-- An invariant of the effects that the accepted calls can have holds in every reachable
database. -/
theorem reachable_invariant (h₀ : I seed)
    (hstep : ∀ d call a d', I d → P d call → Effect d call a d' → I d') (xs : List FaultyCall)
    (hm : Machine.Meets serve (fun k x => P k.committed x.1) start xs) :
    Settled I (Machine.run serve start xs) :=
  Machine.run_invariant (I := Settled I) (fun _ _ hk hP => hk.serve hstep hP) ⟨rfl, h₀⟩ hm

/-- What every accepted call does from a database that satisfies the invariant, it does in every
run. -/
theorem reachable_meets {Q : Conn Db → FaultyCall → Prop} (h₀ : I seed)
    (hstep : ∀ d call a d', I d → P d call → Effect d call a d' → I d')
    (hQ : ∀ k x, Settled I k → P k.committed x.1 → Q k x) (xs : List FaultyCall)
    (hm : Machine.Meets serve (fun k x => P k.committed x.1) start xs) :
    Machine.Meets serve Q start xs :=
  Machine.meets_of_invariant (I := Settled I) (fun _ _ hk hP => hk.serve hstep hP) hQ ⟨rfl, h₀⟩ hm

end Sshnack
