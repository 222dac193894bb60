import Sshnack.SshGate
import Sshnack.TuiEdits

/-!
# The identity of a session

The client of a session sends the id that the server returned for the key exactly if a lookup
succeeded in time with a positive id; otherwise `load_config` keeps its default, and the session acts
as another user. The one other safe case is that the script fails and starts no client.
-/

namespace Sshnack.Tui

variable {outcome : ℕ → LookupOutcome} {client : ApiClient} {env : TuiEnv}

/-! ### The lookups -/

/-- The attempt failed and the script goes on. -/
def LookupOutcome.Caught (o : LookupOutcome) : Prop := o ≠ .uncaught ∧ ∀ id, o ≠ .success id

theorem lookupLoop_succ (outcome : ℕ → LookupOutcome) (left attempt : ℕ) :
    lookupLoop outcome (left + 1) attempt = match outcome attempt with
      | .success userId => some (ascii "--user " ++ formatInt userId)
      | .uncaught => none
      | _ => lookupLoop outcome left (attempt + 1) := rfl

theorem lookupLoop_caught {left attempt : ℕ} (h : (outcome attempt).Caught) :
    lookupLoop outcome (left + 1) attempt = lookupLoop outcome left (attempt + 1) := by
  cases hout : outcome attempt with
  | success id => exact absurd hout (h.2 id)
  | uncaught => exact absurd hout h.1
  | requestException | httpError | malformedJson | missingKey => rw [lookupLoop_succ, hout]

theorem caught_succ {attempt n : ℕ} (h : (outcome attempt).Caught)
    (hn : ∀ i < n, (outcome (attempt + 1 + i)).Caught) :
    ∀ i < n + 1, (outcome (attempt + i)).Caught := by
  intro i hi
  cases i with
  | zero => exact h
  | succ i =>
    rw [show attempt + (i + 1) = attempt + 1 + i by omega]
    exact hn i (by omega)

/-- How the loop can end. -/
theorem lookupLoop_cases (outcome : ℕ → LookupOutcome) (left attempt : ℕ) :
    (∃ n < left, (∀ i < n, (outcome (attempt + i)).Caught) ∧ outcome (attempt + n) = .uncaught ∧
      lookupLoop outcome left attempt = none) ∨
    (∃ n < left, ∃ id, (∀ i < n, (outcome (attempt + i)).Caught) ∧
      outcome (attempt + n) = .success id ∧
      lookupLoop outcome left attempt = some (ascii "--user " ++ formatInt id)) ∨
    ((∀ i < left, (outcome (attempt + i)).Caught) ∧ lookupLoop outcome left attempt = some []) := by
  induction left generalizing attempt with
  | zero => exact .inr (.inr ⟨by omega, rfl⟩)
  | succ left ih =>
    by_cases hcaught : (outcome attempt).Caught
    · rw [lookupLoop_caught hcaught]
      rcases ih (attempt + 1) with ⟨n, hn, hbefore, hat, hend⟩ | ⟨n, hn, id, hbefore, hat, hend⟩ |
        ⟨hall, hend⟩
      · rw [show attempt + 1 + n = attempt + (n + 1) by omega] at hat
        exact .inl ⟨n + 1, by omega, caught_succ hcaught hbefore, hat, hend⟩
      · rw [show attempt + 1 + n = attempt + (n + 1) by omega] at hat
        exact .inr (.inl ⟨n + 1, by omega, id, caught_succ hcaught hbefore, hat, hend⟩)
      · exact .inr (.inr ⟨caught_succ hcaught hall, hend⟩)
    · cases hout : outcome attempt with
      | uncaught =>
        refine .inl ⟨0, by omega, by omega, hout, ?_⟩
        rw [lookupLoop_succ, hout]
      | success id =>
        refine .inr (.inl ⟨0, by omega, id, by omega, hout, ?_⟩)
        rw [lookupLoop_succ, hout]
      | requestException | httpError | malformedJson | missingKey =>
        exact absurd (by rw [hout]; exact ⟨by decide, by simp⟩) hcaught

/-- The first attempt that is not caught is unique. -/
theorem first_unique {P : ℕ → Prop} {n m : ℕ} (hn : ∀ i < n, P i) (hPn : ¬ P n)
    (hm : ∀ i < m, P i) (hPm : ¬ P m) : n = m := by
  rcases Nat.lt_trichotomy n m with hlt | heq | hgt
  · exact absurd (hm n hlt) hPn
  · exact heq
  · exact absurd (hn m hgt) hPm

/-! ### The client -/

theorem setUserId_pos (s : CString) {userId : Int32} (h : 0 < userId) : 0 < setUserId s userId := by
  unfold setUserId
  split_ifs with hpos
  · exact hpos
  · exact h

theorem userArgs_pos (args : List CString) {userId : Int32} (h : 0 < userId) :
    0 < userArgs args userId := by
  fun_induction userArgs args userId with
  | case1 value rest userId ih => exact ih (setUserId_pos value h)
  | case2 flag value rest userId hflag ih => exact ih h
  | case3 => exact h

/-- A client always has a user id. -/
theorem userId_pos (argv : List CString) (env : TuiEnv) : 0 < (tuiMain argv env).userId := by
  apply userArgs_pos
  split
  · decide
  · exact setUserId_pos _ (by decide)

theorem atoi_formatInt (id : Int32) : atoi (formatInt id) = id := by
  rw [atoi, strtol_formatInt, Int32.ofInt_toInt]

theorem formatInt_injective {x y : Int32} (h : formatInt x = formatInt y) : x = y := by
  rw [← atoi_formatInt x, h, atoi_formatInt]

/-- The command in a line whose `cmd` has no quote. -/
theorem forcedCommand_line {cmd : CString} (hquote : 34 ∉ cmd) (rest : CString) :
    forcedCommand (ascii "command=\"/usr/local/app/tui " ++ cmd ++ 34 :: rest) =
      ascii "/usr/local/app/tui " ++ cmd := by
  have hopen : ascii "command=\"/usr/local/app/tui " =
      ascii "command=\"" ++ ascii "/usr/local/app/tui " := by decide
  have htui : 34 ∉ ascii "/usr/local/app/tui " := by decide
  rw [forcedCommand, hopen, List.append_assoc, List.append_assoc, List.drop_left,
    ← List.append_assoc, List.takeWhile_append_of_pos]
  · simp
  · intro b hb
    have hne : b ≠ 34 := by
      rintro rfl
      rcases List.mem_append.1 hb with hb | hb
      · exact htui hb
      · exact hquote hb
    simpa using hne

theorem shellWords_plain : shellWords (ascii "/usr/local/app/tui " ++ []) =
    [ascii "/usr/local/app/tui"] := by
  decide

theorem shellWords_user (id : Int32) :
    shellWords (ascii "/usr/local/app/tui " ++ (ascii "--user " ++ formatInt id)) =
      [ascii "/usr/local/app/tui", ascii "--user", formatInt id] := by
  have hshape : ascii "/usr/local/app/tui " ++ (ascii "--user " ++ formatInt id) =
      ascii "/usr/local/app/tui" ++ 32 :: (ascii "--user" ++ 32 :: formatInt id) := by
    have htui : ascii "/usr/local/app/tui " = ascii "/usr/local/app/tui" ++ [32] := by decide
    have huser : ascii "--user " = ascii "--user" ++ [32] := by decide
    rw [htui, huser]
    simp
  have hspace : 32 ∉ formatInt id := not_mem_of_noSpace (fun b hb => (formatInt_plain id b hb).1) rfl
  have htui : (ascii "/usr/local/app/tui").splitOn 32 = [ascii "/usr/local/app/tui"] := by
    decide
  have huser : (ascii "--user").splitOn 32 = [ascii "--user"] := by decide
  rw [shellWords, hshape, List.splitOn_append_cons_self, List.splitOn_append_cons_self, htui, huser,
    List.splitOn_eq_singleton hspace]
  simp [formatInt_ne_nil id]
  decide

theorem tuiMain_user (env : TuiEnv) {id : Int32} (hpos : 0 < id) :
    (tuiMain [ascii "/usr/local/app/tui", ascii "--user", formatInt id] env).userId = id := by
  simp only [tuiMain, loadConfig, apiClientInit, List.tail_cons, userArgs, if_true, setUserId,
    atoi_formatInt, if_pos hpos]

/-- The client sends this id with every call that is not privileged. -/
def SendsId (client : ApiClient) (id : Int32) : Prop :=
  ∀ call : ApiCall, ¬ call.Privileged →
    ascii "Authorization: Bearer " ++ formatInt id ∈ (call.options client).httpHeader

theorem authorization_mem {method path : CString} {body : Option CString} :
    ascii "Authorization: Bearer " ++ formatInt client.userId ∈
      (doRequest client method path body false).httpHeader := by
  rw [httpHeader_eq]
  exact List.mem_cons_self

theorem sendsId_iff {id : Int32} : SendsId client id ↔ client.userId = id := by
  constructor
  · intro h
    have hline : ascii "Authorization: Bearer " ++ formatInt id ∈
        (doRequest client (ascii "GET") (ascii "/stock") none false).httpHeader :=
      h .getStock not_false
    rw [httpHeader_eq] at hline
    exact (formatInt_injective (List.append_cancel_left (List.mem_singleton.1 hline))).symm
  · rintro rfl call hcall
    cases call with
    | restock slotId qty => exact absurd trivial hcall
    | setPrice itemId priceGr => exact absurd trivial hcall
    | getStock | getBalance | deposit | purchase | refund => exact authorization_mem

/-! ### Sessions -/

variable {gate : GateEnv} {server : CString → ℕ → LookupOutcome}
  {keyType b64key fingerprint : CString}

/-- The id that the server returned in the first lookup that succeeded. -/
def Returned (gate : GateEnv) (server : CString → ℕ → LookupOutcome) (fingerprint : CString)
    (id : Int32) : Prop :=
  gate.lookupUrl.isSome = true ∧ ∃ n < maxAttempts, server fingerprint (n + 1) = .success id ∧
    ∀ i < n, ∀ other, server fingerprint (i + 1) ≠ .success other

/-- A client that is started sends the id that the server returned, and no id if it returned none. -/
def IdentityKept (gate : GateEnv) (server : CString → ℕ → LookupOutcome)
    (keyType b64key fingerprint : CString) (env : TuiEnv) : Prop :=
  ∀ client, sshSession gate server keyType b64key fingerprint env = some client →
    (∀ id, Returned gate server fingerprint id → SendsId client id) ∧
    ((∀ id, ¬ Returned gate server fingerprint id) → ∀ id, 0 < id → ¬ SendsId client id)

/-- The first attempt that does not fail returns a positive id or ends the script. -/
def Resolved (gate : GateEnv) (server : CString → ℕ → LookupOutcome) (fingerprint : CString) : Prop :=
  gate.lookupUrl.isSome = true ∧ ∃ n < maxAttempts,
    (∀ i < n, (server fingerprint (i + 1)).Caught) ∧
    (server fingerprint (n + 1) = .uncaught ∨
      ∃ id, server fingerprint (n + 1) = .success id ∧ 0 < id)

theorem sshSession_eq {cmd : CString} (hcmd : lookupCmd gate (server fingerprint) = some cmd)
    (hquote : 34 ∉ cmd) : sshSession gate server keyType b64key fingerprint env =
      some (tuiMain (shellWords (ascii "/usr/local/app/tui " ++ cmd)) env) := by
  have hclose : ascii "\",restrict,pty " = 34 :: ascii ",restrict,pty " := by decide
  simp only [sshSession, authencesn, hcmd, Option.map_some, hclose, List.cons_append,
    List.append_assoc]
  rw [← List.append_assoc, forcedCommand_line hquote]

/-- A session that the script starts without an id. -/
theorem sshSession_plain (hcmd : lookupCmd gate (server fingerprint) = some []) :
    sshSession gate server keyType b64key fingerprint env =
      some (tuiMain [ascii "/usr/local/app/tui"] env) := by
  rw [sshSession_eq hcmd (by simp), shellWords_plain]

theorem sshSession_user {id : Int32}
    (hcmd : lookupCmd gate (server fingerprint) = some (ascii "--user " ++ formatInt id)) :
    sshSession gate server keyType b64key fingerprint env =
      some (tuiMain [ascii "/usr/local/app/tui", ascii "--user", formatInt id] env) := by
  have hquote : 34 ∉ ascii "--user " ++ formatInt id := by
    intro hmem
    rcases List.mem_append.1 hmem with hflag | hid
    · exact absurd hflag (by decide)
    · exact absurd (formatInt_chars id 34 hid) (by decide)
  rw [sshSession_eq hcmd hquote, shellWords_user]

/-- A session that is started without an id acts as the default user. -/
theorem not_identityKept_plain (hcmd : lookupCmd gate (server fingerprint) = some [])
    (hnone : ∀ id, ¬ Returned gate server fingerprint id) :
    ¬ IdentityKept gate server keyType b64key fingerprint env := by
  intro h
  exact (h _ (sshSession_plain hcmd)).2 hnone _ (userId_pos _ env) (sendsId_iff.2 rfl)

theorem lookupCmd_cases (hurl : gate.lookupUrl.isSome = true) (outcome : ℕ → LookupOutcome) :
    (∃ n < maxAttempts, (∀ i < n, (outcome (i + 1)).Caught) ∧ outcome (n + 1) = .uncaught ∧
      lookupCmd gate outcome = none) ∨
    (∃ n < maxAttempts, ∃ id, (∀ i < n, (outcome (i + 1)).Caught) ∧
      outcome (n + 1) = .success id ∧
      lookupCmd gate outcome = some (ascii "--user " ++ formatInt id)) ∨
    ((∀ i < maxAttempts, (outcome (i + 1)).Caught) ∧ lookupCmd gate outcome = some []) := by
  have hcases := lookupLoop_cases outcome maxAttempts 1
  rw [lookupCmd, if_pos hurl]
  simpa only [Nat.add_comm 1] using hcases

theorem Returned.unique {id other : Int32} (h : Returned gate server fingerprint id)
    (h' : Returned gate server fingerprint other) : id = other := by
  obtain ⟨_, n, _, hn, hbefore⟩ := h
  obtain ⟨_, m, _, hm, hbefore'⟩ := h'
  have heq : n = m := first_unique hbefore (fun hnot => hnot id hn) hbefore' (fun hnot => hnot other hm)
  subst heq
  rw [hn] at hm
  exact LookupOutcome.success.inj hm

/-- A session that is started with the id that the server returned. -/
theorem identityKept_user {id : Int32}
    (hcmd : lookupCmd gate (server fingerprint) = some (ascii "--user " ++ formatInt id))
    (hreturned : Returned gate server fingerprint id) :
    IdentityKept gate server keyType b64key fingerprint env ↔ 0 < id := by
  constructor
  · intro h
    have hsends := (h _ (sshSession_user hcmd)).1 id hreturned
    rw [← sendsId_iff.1 hsends]
    exact userId_pos _ env
  · intro hpos client hclient
    rw [sshSession_user hcmd] at hclient
    cases hclient
    refine ⟨fun other hother => ?_, fun hnone => absurd hreturned (hnone id)⟩
    rw [← hreturned.unique hother]
    exact sendsId_iff.2 (tuiMain_user env hpos)

theorem resolved_of_first {n : ℕ} {id : Int32} (hurl : gate.lookupUrl.isSome = true)
    (hn : n < maxAttempts) (hbefore : ∀ i < n, (server fingerprint (i + 1)).Caught)
    (hat : server fingerprint (n + 1) = .success id) :
    Resolved gate server fingerprint ↔ 0 < id := by
  constructor
  · rintro ⟨_, m, _, hbefore', hend⟩
    have hstop : ¬ (server fingerprint (m + 1)).Caught := by
      rcases hend with hend | ⟨other, hend, _⟩
      · exact fun hc => hc.1 hend
      · exact fun hc => hc.2 other hend
    have heq : n = m := first_unique hbefore (fun hc => hc.2 id hat) hbefore' hstop
    subst heq
    rw [hat] at hend
    rcases hend with hend | ⟨other, hend, hpos⟩
    · cases hend
    · rwa [LookupOutcome.success.inj hend]
  · exact fun hpos => ⟨hurl, n, hn, hbefore, .inr ⟨id, hat, hpos⟩⟩

/-- The identity is kept exactly if the lookups are resolved. -/
theorem identityKept_iff (gate : GateEnv) (server : CString → ℕ → LookupOutcome)
    (keyType b64key fingerprint : CString) (env : TuiEnv) :
    IdentityKept gate server keyType b64key fingerprint env ↔ Resolved gate server fingerprint := by
  by_cases hurl : gate.lookupUrl.isSome = true
  · rcases lookupCmd_cases hurl (server fingerprint) with ⟨n, hn, hbefore, hat, hcmd⟩ |
      ⟨n, hn, id, hbefore, hat, hcmd⟩ | ⟨hall, hcmd⟩
    · have hnone : sshSession gate server keyType b64key fingerprint env = none := by
        rw [sshSession, authencesn, hcmd, Option.map_none, Option.map_none]
      refine ⟨fun _ => ⟨hurl, n, hn, hbefore, .inl hat⟩, fun _ client hclient => ?_⟩
      rw [hnone] at hclient
      cases hclient
    · have hreturned : Returned gate server fingerprint id :=
        ⟨hurl, n, hn, hat, fun i hi => (hbefore i hi).2⟩
      rw [identityKept_user hcmd hreturned, resolved_of_first hurl hn hbefore hat]
    · have hnone : ∀ id, ¬ Returned gate server fingerprint id := by
        rintro id ⟨_, n, hn, hsuccess, _⟩
        exact (hall n hn).2 id hsuccess
      refine iff_of_false (not_identityKept_plain hcmd hnone) ?_
      rintro ⟨_, n, hn, _, hat | ⟨id, hat, _⟩⟩
      · exact (hall n hn).1 hat
      · exact (hall n hn).2 id hat
  · have hcmd : lookupCmd gate (server fingerprint) = some [] := if_neg hurl
    have hnone : ∀ id, ¬ Returned gate server fingerprint id := fun id h => hurl h.1
    exact iff_of_false (not_identityKept_plain hcmd hnone) (fun h => hurl h.1)

/-- Five lookups of an unreachable server, with nothing in the environment of the client: the session
acts as user 67. -/
theorem not_identityKept_unreachable :
    ¬ IdentityKept ⟨some (ascii "http://server:8081"), none, none, none⟩
      (fun _ _ => .requestException) (ascii "ssh-ed25519") (ascii "AAAA") (ascii "SHA256:abc")
      ⟨none, none, none⟩ := by
  refine not_identityKept_plain rfl ?_
  rintro id ⟨_, n, _, hsuccess, _⟩
  cases hsuccess

end Sshnack.Tui
