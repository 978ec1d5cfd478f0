import Mathlib.Data.List.Basic
import Mathlib.Data.List.Nodup
import Mathlib.Logic.Function.Basic

/-!
# The connections of an MCP client

`getConnection`, `callTool`, `listTools` and `close` of `packages/mcp/src/client.ts`, interleaved.  What
runs between two `await`s is one step; a connect takes any time, and it may fail.
-/

namespace OpenRupiv.Mcp

inductive ClientCall where
  | callTool (server : String)
  | listTools (server : String)
  | close
  deriving DecidableEq

/-- A connection to a server, by the number of connects that succeeded before. -/
structure Connection where
  server : String
  id : Nat
  deriving DecidableEq

inductive CallPhase where
  | requested
  /-- `await connectServer(…)`, which is not answered yet. -/
  | connecting (server : String)
  /-- It is answered, and the call is about to go on. -/
  | connected (conn : Connection)
  /-- A tool call or a listing on the connection. -/
  | using (conn : Connection)
  /-- `await conn.client.close()`, with the index at which the iteration goes on. -/
  | shutting (conn : Connection) (i : Nat)
  | ended
  deriving DecidableEq

/-- The calls with their phases, the entries of `connections`, and the connections that are open.  An
entry that was cleared leaves a gap, which an iteration passes over. -/
structure Connections (ρ : Type) where
  phase : ρ → CallPhase
  entries : List (Option Connection) := []
  opened : List Connection := []
  established : Nat := 0

def firstEntry : List (Option Connection) → Nat → Option (Connection × Nat)
  | [], _ => none
  | none :: rest, i => firstEntry rest (i + 1)
  | some conn :: _, i => some (conn, i + 1)

namespace Connections

variable {ρ : Type} [DecidableEq ρ]

/-- `connections.get(server)`. -/
def find (w : Connections ρ) (server : String) : Option Connection :=
  w.entries.findSome? fun entry => entry.filter fun conn => conn.server = server

/-- `connections.set(conn.server, conn)`. -/
def store (w : Connections ρ) (conn : Connection) : Connections ρ :=
  if (w.find conn.server).isSome then
    { w with
      entries := w.entries.map fun entry =>
        if entry.any fun old => old.server = conn.server then some conn else entry }
  else { w with entries := w.entries ++ [some conn] }

def become (w : Connections ρ) (r : ρ) (φ : CallPhase) : Connections ρ :=
  { w with phase := Function.update w.phase r φ }

/-- `getConnection`, up to its `await`. -/
def getConnection (w : Connections ρ) (r : ρ) (server : String) : Connections ρ :=
  match w.find server with
  | some conn => w.become r (.using conn)
  | none => w.become r (.connecting server)

/-- The loop of `close` at an index: the next connection, or `connections.clear()`. -/
def advance (w : Connections ρ) (r : ρ) (i : Nat) : Connections ρ :=
  match firstEntry (w.entries.drop i) i with
  | some (conn, i) => w.become r (.shutting conn i)
  | none => { w.become r .ended with entries := w.entries.map fun _ => none }

/-- The next step of a call.  `succeeds` tells whether the allowlist, the policy and the audit log let
a tool call pass, and whether a connect succeeds. -/
def step (servers : List String) (calls : ρ → ClientCall) (w : Connections ρ) (r : ρ)
    (succeeds : Bool) : Connections ρ :=
  match w.phase r with
  | .requested =>
      match calls r with
      | .callTool server =>
          if server ∈ servers ∧ succeeds = true then w.getConnection r server
          else w.become r .ended
      | .listTools server =>
          if server ∈ servers then w.getConnection r server else w.become r .ended
      | .close => w.advance r 0
  | .connecting server =>
      if succeeds then
        { w.become r (.connected ⟨server, w.established⟩) with
          opened := ⟨server, w.established⟩ :: w.opened
          established := w.established + 1 }
      else w.become r .ended
  | .connected conn => (w.store conn).become r (.using conn)
  | .using _ => w.become r .ended
  | .shutting conn i => { w with opened := w.opened.erase conn }.advance r i
  | .ended => w

/-- A client without connections. -/
def fresh : Connections ρ where
  phase _ := .requested

def run (servers : List String) (calls : ρ → ClientCall) (w : Connections ρ)
    (schedule : List (ρ × Bool)) : Connections ρ :=
  schedule.foldl (fun w s => w.step servers calls s.1 s.2) w

/-- No connect succeeds while another connection to its server, made since the lookup, is stored or
about to be stored, and none after a close has begun.  No close begins while a connection is about to
be stored. -/
def Calm (calls : ρ → ClientCall) (w : Connections ρ) (r : ρ) (succeeds : Bool) : Prop :=
  (∀ server, w.phase r = .connecting server → succeeds = true →
    w.find server = none ∧ (∀ s conn, w.phase s = .connected conn → conn.server ≠ server) ∧
      ∀ s, calls s = .close → w.phase s = .requested) ∧
  (w.phase r = .requested → calls r = .close → ∀ s conn, w.phase s ≠ .connected conn)

def CalmRun (servers : List String) (calls : ρ → ClientCall) (w : Connections ρ) :
    List (ρ × Bool) → Prop
  | [] => True
  | s :: schedule =>
      w.Calm calls s.1 s.2 ∧ CalmRun servers calls (w.step servers calls s.1 s.2) schedule

omit [DecidableEq ρ] in
theorem find_eq_none {w : Connections ρ} {server : String} :
    w.find server = none ↔ ∀ conn, some conn ∈ w.entries → conn.server ≠ server := by
  rw [find, List.findSome?_eq_none_iff]
  constructor
  · intro h conn hconn
    simpa using h _ hconn
  · intro h entry hentry
    cases entry with
    | none => rfl
    | some conn => simpa using h conn hentry

end Connections

theorem firstEntry_eq_some {l : List (Option Connection)} {i k : Nat} {conn : Connection}
    (h : firstEntry l i = some (conn, k)) :
    ∃ m, k = i + m + 1 ∧ l[m]? = some (some conn) ∧ ∀ n < m, l[n]? = some none := by
  fun_induction firstEntry l i with
  | case1 => exact absurd h (by simp)
  | case2 rest i ih =>
    obtain ⟨m, hk, hm, hgaps⟩ := ih h
    refine ⟨m + 1, by omega, by simpa using hm, fun n hn => ?_⟩
    cases n with
    | zero => rfl
    | succ n => simpa using hgaps n (by omega)
  | case3 d rest i =>
    obtain ⟨rfl, rfl⟩ := Prod.mk.inj (Option.some.inj h)
    exact ⟨0, rfl, rfl, by simp⟩

theorem firstEntry_eq_none {l : List (Option Connection)} {i : Nat} (h : firstEntry l i = none) :
    ∀ conn, some conn ∉ l := by
  fun_induction firstEntry l i with
  | case1 => simp
  | case2 rest i ih => simpa using ih h
  | case3 => exact absurd h (by simp)

namespace Connections

variable {ρ : Type} [DecidableEq ρ] {servers : List String} {calls : ρ → ClientCall}
  {w : Connections ρ} {r : ρ}

/-- What holds of a client after calm steps. -/
structure Tidy (calls : ρ → ClientCall) (w : Connections ρ) : Prop where
  kept : ∀ conn ∈ w.opened, some conn ∈ w.entries ∨ ∃ r, w.phase r = .connected conn
  single : (w.opened.map Connection.server).Nodup
  unstored : ∀ r conn, w.phase r = .connected conn → w.find conn.server = none ∧
    (∀ s d, w.phase s = .connected d → d.server = conn.server → s = r) ∧
    ∀ s, calls s = .close → w.phase s = .requested
  closing : ∀ r conn i, w.phase r = .shutting conn i → calls r = .close
  closers : ∀ r, calls r = .close →
    w.phase r = .requested ∨ (∃ conn i, w.phase r = .shutting conn i) ∨ w.phase r = .ended
  passed : ∀ r conn i, w.phase r = .shutting conn i →
    ∀ j < i, ∀ d, w.entries[j]? = some (some d) → d ∈ w.opened → d = conn
  closed : ∀ r, calls r = .close → w.phase r = .ended → w.opened = []

omit [DecidableEq ρ] in
theorem tidy_fresh : (fresh : Connections ρ).Tidy calls where
  kept := by simp [fresh]
  single := by simp [fresh]
  unstored := by simp [fresh]
  closing := by simp [fresh]
  closers := by simp [fresh]
  passed := by simp [fresh]
  closed := by simp [fresh]

theorem phase_become {φ : CallPhase} {s : ρ} :
    (w.become r φ).phase s = if s = r then φ else w.phase s :=
  Function.update_apply w.phase r φ s

/-- A call that is no `close` goes to a phase without a connection of its own. -/
theorem Tidy.become (h : w.Tidy calls) (hcall : calls r ≠ .close) {φ : CallPhase}
    (hconnected : ∀ conn, w.phase r ≠ .connected conn) (hφ : ∀ conn, φ ≠ .connected conn)
    (hshut : ∀ conn i, φ ≠ .shutting conn i) : (w.become r φ).Tidy calls where
  kept conn hconn := by
    refine (h.kept conn hconn).imp_right fun ⟨s, hs⟩ => ⟨s, ?_⟩
    have hne : s ≠ r := by
      rintro rfl
      exact hconnected conn hs
    rw [phase_become, if_neg hne, hs]
  single := h.single
  unstored s conn hs := by
    rw [phase_become] at hs
    split at hs
    · exact absurd hs (hφ conn)
    · obtain ⟨hfind, hunique, hrequested⟩ := h.unstored s conn hs
      refine ⟨hfind, fun t d ht => ?_, fun t ht => ?_⟩
      · rw [phase_become] at ht
        split at ht
        · exact absurd ht (hφ d)
        · exact hunique t d ht
      · have hne : t ≠ r := by
          rintro rfl
          exact hcall ht
        rw [phase_become, if_neg hne]
        exact hrequested t ht
  closing s conn i hs := by
    rw [phase_become] at hs
    split at hs
    · exact absurd hs (hshut conn i)
    · exact h.closing s conn i hs
  closers s hs := by
    have hne : s ≠ r := by
      rintro rfl
      exact hcall hs
    rw [phase_become, if_neg hne]
    exact h.closers s hs
  passed s conn i hs := by
    rw [phase_become] at hs
    split at hs
    · exact absurd hs (hshut conn i)
    · exact h.passed s conn i hs
  closed s hs hended := by
    have hne : s ≠ r := by
      rintro rfl
      exact hcall hs
    rw [phase_become, if_neg hne] at hended
    exact h.closed s hs hended

theorem Tidy.getConnection (h : w.Tidy calls) (hcall : calls r ≠ .close)
    (hphase : w.phase r = .requested) (server : String) :
    (w.getConnection r server).Tidy calls := by
  have hconnected : ∀ conn, w.phase r ≠ .connected conn := by simp [hphase]
  unfold Connections.getConnection
  split
  · exact h.become hcall hconnected (by simp) (by simp)
  · exact h.become hcall hconnected (by simp) (by simp)

theorem Tidy.succeed (h : w.Tidy calls) {server : String} (hphase : w.phase r = .connecting server)
    (hcalm : w.Calm calls r true) :
    Tidy calls { w.become r (.connected ⟨server, w.established⟩) with
      opened := ⟨server, w.established⟩ :: w.opened
      established := w.established + 1 } := by
  obtain ⟨hfind, hother, hrequested⟩ := hcalm.1 server hphase rfl
  have hcall : calls r ≠ .close := by
    intro hclose
    rw [hrequested r hclose] at hphase
    exact absurd hphase (by simp)
  have hphases : ∀ s, s ≠ r → (w.become r (.connected ⟨server, w.established⟩)).phase s =
      w.phase s := fun s hs => by rw [phase_become, if_neg hs]
  have hself : (w.become r (.connected ⟨server, w.established⟩)).phase r =
      .connected ⟨server, w.established⟩ := by rw [phase_become, if_pos rfl]
  have hclosers : ∀ s, calls s = .close →
      (w.become r (.connected ⟨server, w.established⟩)).phase s = .requested := by
    intro s hs
    have hne : s ≠ r := by
      rintro rfl
      exact hcall hs
    rw [hphases s hne]
    exact hrequested s hs
  have hnoShut : ∀ s conn i,
      (w.become r (.connected ⟨server, w.established⟩)).phase s ≠ .shutting conn i := by
    intro s conn i hs
    by_cases hne : s = r
    · subst hne
      rw [hself] at hs
      exact absurd hs (by simp)
    · rw [hphases s hne] at hs
      rw [hrequested s (h.closing s conn i hs)] at hs
      exact absurd hs (by simp)
  have hnew : server ∉ w.opened.map Connection.server := by
    intro hmem
    obtain ⟨conn, hconn, rfl⟩ := List.mem_map.mp hmem
    rcases h.kept conn hconn with hentry | ⟨s, hs⟩
    · exact find_eq_none.mp hfind conn hentry rfl
    · exact hother s conn hs rfl
  constructor
  · intro conn hconn
    rcases List.mem_cons.mp hconn with rfl | hconn
    · exact .inr ⟨r, hself⟩
    · refine (h.kept conn hconn).imp_right fun ⟨s, hs⟩ => ⟨s, ?_⟩
      have hne : s ≠ r := by
        rintro rfl
        rw [hphase] at hs
        exact absurd hs (by simp)
      exact (hphases s hne).trans hs
  · exact List.nodup_cons.mpr ⟨hnew, h.single⟩
  · intro s conn hs
    by_cases hne : s = r
    · subst hne
      rw [hself] at hs
      obtain rfl := CallPhase.connected.inj hs
      refine ⟨hfind, fun t d ht hserver => ?_, hclosers⟩
      by_contra hts
      rw [hphases t hts] at ht
      exact hother t d ht hserver
    · rw [hphases s hne] at hs
      obtain ⟨hnone, hunique, -⟩ := h.unstored s conn hs
      refine ⟨hnone, fun t d ht hserver => ?_, hclosers⟩
      by_cases htr : t = r
      · subst htr
        rw [hself] at ht
        obtain rfl := CallPhase.connected.inj ht
        exact absurd hserver.symm (hother s conn hs)
      · rw [hphases t htr] at ht
        exact hunique t d ht hserver
  · intro s conn i hs
    exact absurd hs (hnoShut s conn i)
  · intro s hs
    exact .inl (hclosers s hs)
  · intro s conn i hs
    exact absurd hs (hnoShut s conn i)
  · intro s hs hended
    rw [hclosers s hs] at hended
    exact absurd hended (by simp)

omit [DecidableEq ρ] in
theorem Tidy.open_calls (h : w.Tidy calls) {conn : Connection} (hphase : w.phase r = .connected conn) :
    calls r ≠ .close ∧ ∀ s d i, w.phase s ≠ .shutting d i := by
  obtain ⟨-, -, hrequested⟩ := h.unstored r conn hphase
  constructor
  · intro hclose
    rw [hrequested r hclose] at hphase
    exact absurd hphase (by simp)
  · intro s d i hs
    rw [hrequested s (h.closing s d i hs)] at hs
    exact absurd hs (by simp)

theorem Tidy.store (h : w.Tidy calls) {conn : Connection} (hphase : w.phase r = .connected conn) :
    ((w.store conn).become r (.using conn)).Tidy calls := by
  obtain ⟨hfind, hunique, hrequested⟩ := h.unstored r conn hphase
  obtain ⟨hcall, hnoShut⟩ := h.open_calls hphase
  have hstore : w.store conn = { w with entries := w.entries ++ [some conn] } := by
    rw [Connections.store, hfind]
    rfl
  rw [hstore]
  have hphases : ∀ s, (Connections.become { w with entries := w.entries ++ [some conn] } r
      (.using conn)).phase s = if s = r then .using conn else w.phase s := fun s => phase_become
  constructor
  · intro d hd
    rcases h.kept d hd with hentry | ⟨s, hs⟩
    · exact .inl (List.mem_append_left _ hentry)
    · by_cases hsr : s = r
      · subst hsr
        obtain rfl := CallPhase.connected.inj (hs.symm.trans hphase)
        exact .inl (List.mem_append_right _ (by simp))
      · exact .inr ⟨s, by rw [hphases, if_neg hsr, hs]⟩
  · exact h.single
  · intro s d hs
    rw [hphases] at hs
    split at hs
    · exact absurd hs (by simp)
    rename_i hsr
    obtain ⟨hnone, honly, hclosers⟩ := h.unstored s d hs
    have hserver : conn.server ≠ d.server := fun heq => hsr (hunique s d hs heq.symm)
    refine ⟨?_, fun t e ht heq => ?_, fun t ht => ?_⟩
    · rw [find_eq_none] at hnone ⊢
      intro e he
      rcases List.mem_append.mp he with he | he
      · exact hnone e he
      · obtain rfl : e = conn := by simpa using he
        exact hserver
    · rw [hphases] at ht
      split at ht
      · exact absurd ht (by simp)
      · exact honly t e ht heq
    · have hne : t ≠ r := by
        rintro rfl
        exact hcall ht
      rw [hphases, if_neg hne]
      exact hclosers t ht
  · intro s d i hs
    rw [hphases] at hs
    split at hs
    · exact absurd hs (by simp)
    · exact h.closing s d i hs
  · intro s hs
    have hne : s ≠ r := by
      rintro rfl
      exact hcall hs
    rw [hphases, if_neg hne]
    exact h.closers s hs
  · intro s d i hs
    rw [hphases] at hs
    split at hs
    · exact absurd hs (by simp)
    · exact absurd hs (hnoShut s d i)
  · intro s hs hended
    have hne : s ≠ r := by
      rintro rfl
      exact hcall hs
    rw [hphases, if_neg hne] at hended
    exact h.closed s hs hended

/-- The loop of `close` goes on when what it has passed is closed and nothing is about to be stored. -/
theorem Tidy.advance (h : w.Tidy calls) (hcall : calls r = .close) {i : Nat}
    (hstored : ∀ s conn, w.phase s ≠ .connected conn)
    (hpassed : ∀ j < i, ∀ d, w.entries[j]? = some (some d) → d ∉ w.opened) :
    (w.advance r i).Tidy calls := by
  unfold Connections.advance
  split
  · rename_i conn k hnext
    obtain ⟨m, rfl, hm, hgaps⟩ := firstEntry_eq_some hnext
    have hphases : ∀ s, (w.become r (.shutting conn (i + m + 1))).phase s =
        if s = r then .shutting conn (i + m + 1) else w.phase s := fun s => phase_become
    constructor
    · intro d hd
      rcases h.kept d hd with hentry | ⟨s, hs⟩
      · exact .inl hentry
      · exact absurd hs (hstored s d)
    · exact h.single
    · intro s d hs
      rw [hphases] at hs
      split at hs
      · exact absurd hs (by simp)
      · exact absurd hs (hstored s d)
    · intro s d k hs
      rw [hphases] at hs
      split at hs
      · rename_i hsr
        exact hsr ▸ hcall
      · exact h.closing s d k hs
    · intro s hs
      rw [hphases]
      split
      · exact .inr (.inl ⟨_, _, rfl⟩)
      · exact h.closers s hs
    · intro s d k hs j hj e he hopen
      rw [hphases] at hs
      split at hs
      · obtain ⟨rfl, rfl⟩ := CallPhase.shutting.inj hs
        rcases Nat.lt_or_ge j i with hlt | hge
        · exact absurd hopen (hpassed j hlt e he)
        · obtain ⟨n, rfl⟩ := Nat.exists_eq_add_of_le hge
          change w.entries[i + n]? = some (some e) at he
          rw [← List.getElem?_drop] at he
          rcases Nat.lt_or_ge n m with hnm | hnm
          · rw [hgaps n hnm] at he
            exact absurd he (by simp)
          · obtain rfl : n = m := by omega
            rw [hm] at he
            exact (Option.some.inj (Option.some.inj he)).symm
      · exact h.passed s d k hs j hj e he hopen
    · intro s hs hended
      rw [hphases] at hended
      split at hended
      · exact absurd hended (by simp)
      · exact h.closed s hs hended
  · rename_i hnext
    -- the loop has passed all entries, and every open connection has one
    have hnil : w.opened = [] := by
      rw [List.eq_nil_iff_forall_not_mem]
      intro d hd
      rcases h.kept d hd with hentry | ⟨s, hs⟩
      · obtain ⟨j, hj⟩ := List.mem_iff_getElem?.mp hentry
        rcases Nat.lt_or_ge j i with hlt | hge
        · exact hpassed j hlt d hj hd
        · obtain ⟨n, rfl⟩ := Nat.exists_eq_add_of_le hge
          rw [← List.getElem?_drop] at hj
          exact firstEntry_eq_none hnext d (List.mem_of_getElem? hj)
      · exact hstored s d hs
    have hphases : ∀ s, (w.become r .ended).phase s = if s = r then .ended else w.phase s :=
      fun s => phase_become
    constructor
    · intro d hd
      exact absurd (hnil ▸ hd) (by simp)
    · exact h.single
    · intro s d hs
      replace hs : (w.become r .ended).phase s = .connected d := hs
      rw [hphases] at hs
      split at hs
      · exact absurd hs (by simp)
      · exact absurd hs (hstored s d)
    · intro s d k hs
      replace hs : (w.become r .ended).phase s = .shutting d k := hs
      rw [hphases] at hs
      split at hs
      · exact absurd hs (by simp)
      · exact h.closing s d k hs
    · intro s hs
      show (w.become r .ended).phase s = _ ∨ _
      rw [hphases]
      split
      · exact .inr (.inr rfl)
      · exact h.closers s hs
    · intro s d k hs j hj e he hopen
      exact absurd (hnil ▸ hopen) (by simp)
    · intro s hs hended
      exact hnil

omit [DecidableEq ρ] in
theorem Tidy.shut (h : w.Tidy calls) (conn : Connection) :
    Tidy calls { w with opened := w.opened.erase conn } where
  kept d hd := h.kept d (List.mem_of_mem_erase hd)
  single := h.single.sublist ((List.erase_sublist).map _)
  unstored := h.unstored
  closing := h.closing
  closers := h.closers
  passed r d i hr j hj e he hopen := h.passed r d i hr j hj e he (List.mem_of_mem_erase hopen)
  closed r hr hended := by
    show w.opened.erase conn = []
    rw [h.closed r hr hended]
    rfl

theorem Tidy.step (h : w.Tidy calls) {succeeds : Bool} (hcalm : w.Calm calls r succeeds) :
    (w.step servers calls r succeeds).Tidy calls := by
  unfold Connections.step
  split
  · rename_i hphase
    have hconnected : ∀ conn, w.phase r ≠ .connected conn := by simp [hphase]
    split
    · rename_i server hcall
      have hne : calls r ≠ .close := by simp [hcall]
      split
      · exact h.getConnection hne hphase server
      · exact h.become hne hconnected (by simp) (by simp)
    · rename_i server hcall
      have hne : calls r ≠ .close := by simp [hcall]
      split
      · exact h.getConnection hne hphase server
      · exact h.become hne hconnected (by simp) (by simp)
    · rename_i hcall
      exact h.advance hcall (hcalm.2 hphase hcall) (by simp)
  · rename_i server hphase
    split
    · rename_i hsucceeds
      subst hsucceeds
      exact h.succeed hphase hcalm
    · have hne : calls r ≠ .close := by
        intro hcall
        have hphases := h.closers r hcall
        simp [hphase] at hphases
      exact h.become hne (by simp [hphase]) (by simp) (by simp)
  · rename_i conn hphase
    exact h.store hphase
  · rename_i conn hphase
    have hne : calls r ≠ .close := by
      intro hcall
      have hphases := h.closers r hcall
      simp [hphase] at hphases
    exact h.become hne (by simp [hphase]) (by simp) (by simp)
  · rename_i conn i hphase
    have hcall := h.closing r conn i hphase
    refine (h.shut conn).advance hcall ?_ ?_
    · intro s d hs
      have hrequested := (h.unstored s d hs).2.2 r hcall
      exact absurd (hphase.symm.trans hrequested) (by simp)
    · intro j hj d hd hopen
      obtain rfl := h.passed r conn i hphase j hj d hd (List.mem_of_mem_erase hopen)
      exact h.single.of_map.not_mem_erase hopen
  · exact h

theorem Tidy.run (h : w.Tidy calls) {schedule : List (ρ × Bool)}
    (hcalm : w.CalmRun servers calls schedule) : (w.run servers calls schedule).Tidy calls := by
  induction schedule generalizing w with
  | nil => exact h
  | cons s schedule ih => exact ih (h.step hcalm.1) hcalm.2

/-- In a calm run no connection leaks: there is at most one to a server, it is stored or about to be
stored, and none is left after a close. -/
theorem no_connection_leaks (servers : List String) (calls : ρ → ClientCall)
    (schedule : List (ρ × Bool)) (hcalm : fresh.CalmRun servers calls schedule) :
    let w := fresh.run servers calls schedule
    (w.opened.map Connection.server).Nodup ∧
      (∀ conn ∈ w.opened, some conn ∈ w.entries ∨ ∃ r, w.phase r = .connected conn) ∧
      ((∃ r, calls r = .close ∧ w.phase r = .ended) → w.opened = []) := by
  have htidy := tidy_fresh.run hcalm
  refine ⟨htidy.single, htidy.kept, ?_⟩
  rintro ⟨r, hcall, hended⟩
  exact htidy.closed r hcall hended

/-- Calls to two servers at the same time, and a close after them. -/
def overlapping : Option Bool → ClientCall
  | some false => .listTools "files"
  | some true => .callTool "mail"
  | none => .close

def overlapped : List (Option Bool × Bool) :=
  [false, true, false, true, true, false, true, false].map fun r => (some r, true)

theorem no_connection_leaks_overlapping :
    let w := fresh.run ["files", "mail"] overlapping overlapped
    let last := w.run ["files", "mail"] overlapping (List.replicate 3 (none, true))
    (w.opened.map Connection.server).Nodup ∧
      (∀ conn ∈ w.opened, some conn ∈ w.entries ∨ ∃ r, w.phase r = .connected conn) ∧
      w.opened.length = 2 ∧ last.phase none = .ended ∧ last.opened = [] := by
  have hcalm : fresh.CalmRun ["files", "mail"] overlapping overlapped := by
    simp [CalmRun, Calm, step, fresh, getConnection, find, become, store, overlapping, overlapped,
      Option.forall, Function.update]
  have hclosing : fresh.CalmRun ["files", "mail"] overlapping
      (overlapped ++ List.replicate 3 (none, true)) := by
    simp [CalmRun, Calm, step, fresh, getConnection, find, become, store, advance, firstEntry,
      overlapping, overlapped, Option.forall, Function.update]
  obtain ⟨hnodup, hkept, -⟩ := no_connection_leaks ["files", "mail"] overlapping _ hcalm
  obtain ⟨-, -, hclosed⟩ := no_connection_leaks ["files", "mail"] overlapping _ hclosing
  rw [run, List.foldl_append] at hclosed
  exact ⟨hnodup, hkept, by decide, by decide, hclosed ⟨none, rfl, by decide⟩⟩
/-- Two listings and a close. -/
def listTwice : Fin 3 → ClientCall
  | 0 | 1 => .listTools "files"
  | 2 => .close

/-- Two first calls to a server both connect, and the connection that was stored first stays open,
also when all calls have ended after a close. -/
theorem connection_leaks :
    let both := fresh.run ["files"] listTwice
      [(0, true), (1, true), (0, true), (1, true), (0, true), (1, true)]
    let last := both.run ["files"] listTwice [(0, true), (1, true), (2, true), (2, true)]
    both.opened = [⟨"files", 1⟩, ⟨"files", 0⟩] ∧ both.entries = [some ⟨"files", 1⟩] ∧
      last.phase 0 = .ended ∧ last.phase 1 = .ended ∧ last.phase 2 = .ended ∧
      last.opened = [⟨"files", 0⟩] := by
  decide

end Connections

end OpenRupiv.Mcp
