import OpenRupiv.Agents.Proposals
import OpenRupiv.Runtime.Atomicity
import OpenRupiv.Runtime.Observation

/-!
# Agents beside people

People and agents share the database, the lock of the chain and the audit log.  What agents write is
beside the records and their approvals, so every request ends as it would without them.
-/

namespace OpenRupiv.Agents

open Js Lib Spec Audit OpenRupiv.Runtime

inductive Party where
  | human (call : Call)
  | agent (call : AgentCall)

namespace Party

def isHuman : Party → Bool
  | .human _ => true
  | .agent _ => false

def run {pg : Postgres} (host : Host) (sha256 : String → String) (deps : CreateAgentRuntimeDeps)
    (spec : AppSpec) : Party → Async pg Thrown Unit
  | .human call => serve host sha256 call
  | .agent call => call.run sha256 deps spec

end Party

/-- The database with everyone who is about to use it. -/
def shared (pg : Postgres) (host : Host) (sha256 : String → String) (deps : CreateAgentRuntimeDeps)
    (spec : AppSpec) {Client : Type} (parties : Client → Party) (contents : Contents) :
    World (store pg) Client Thrown Unit :=
  .start (fun c => (parties c).run host sha256 deps spec) contents

section Writes

variable {pg : Postgres} {sha256 : String → String} {spec : AppSpec} {call : AgentCall}

theorem AgentCall.Does.aside {k : Cmd (store pg)} (h : call.Does pg sha256 spec k) {w : Write}
    (hw : k.Writes w) : w.aside = true := by
  obtain ⟨task, -, h⟩ := h
  cases h with
  | service hk => cases k <;> first | exact False.elim hw | exact absurd hk (by simp [isService])
  | lockChainTail | selectTail =>
    obtain ⟨choice, κ, r, ws, hexec, hmem⟩ := hw
    rw [← (Prod.mk.inj (Option.some.inj hexec)).2] at hmem
    exact absurd hmem List.not_mem_nil
  | audit | proposed =>
    obtain ⟨row, rfl, -⟩ := shows_of_appendStmt hw
    rfl
  | proposal =>
    obtain ⟨-, proposal, rfl, -⟩ := fields_of_stmt hw
    rfl

end Writes

section Runs

variable {pg : Postgres} {host : Host} {sha256 : String → String} {deps : CreateAgentRuntimeDeps}
  {spec : AppSpec} {Client : Type} {parties : Client → Party} {init : Contents}

/-- The entries of the requests of people. -/
def humans (parties : Client → Party) (history : History pg Client) : History pg Client :=
  history.filter fun e => (parties e.client).isHuman

def isAppend : Cmd (store pg) → Bool
  | .tx (.insertAudit _ _) | .query (.insertAudit _ _) => true
  | _ => false

/-- The inserts into the audit log succeed or fail alike. -/
def AppendsAlike (history history' : History pg Client) : Prop :=
  ∀ p ∈ history.zip history', isAppend p.1.cmd = true → p.1.reply.isSome = p.2.reply.isSome

private theorem isAppend_of_unsettled {k : Cmd (store pg)} (h : (records pg).Unsettled k) :
    isAppend k = true := by
  cases k with
  | tx s | query s =>
    cases s with
    | insertAudit => rfl
    | _ => exact absurd (fun _ _ => by simp) h
  | _ => exact False.elim h

private theorem answers_eq_of_same {history history' : History pg Client}
    (h : List.Forall₂ (records pg).SameLabel history history') : answers history = answers history' := by
  induction h with
  | nil => rfl
  | @cons e e' history history' he _ ih =>
    have hentry : answers [e] = answers [e'] := by
      obtain ⟨c, k, r, ws⟩ := e
      obtain ⟨c', k', r', ws'⟩ := e'
      obtain ⟨rfl, hk, hr, hws⟩ := he
      cases hk with
      | service hk =>
        obtain rfl := hr.service_eq hk
        cases hws with
        | nil => rfl
        | cons =>
          cases k with
          | ext x => cases x <;> cases r <;> rfl
          | _ => rfl
      | tx | query => rfl
    show answers ([e] ++ history) = answers ([e'] ++ history')
    unfold answers at hentry ih ⊢
    rw [List.filterMap_append, List.filterMap_append, hentry, ih]

variable [DecidableEq Client] {schedule : List (Client × Choice)}
  {W : World (store pg) Client Thrown Unit}

/-- Beside any agents the requests of people leave the same records and approvals and get the same
answers as without them, and no step of an agent changes a record or an approval. -/
theorem agents_do_not_interfere
    (halike : ∀ s, s <+: schedule → ∀ V V',
      World.run s (shared pg host sha256 deps spec parties init) = some V →
      World.run (s.filter fun x => (parties x.1).isHuman)
        (shared pg host sha256 deps spec parties init) = some V' →
      AppendsAlike (humans parties V.history) V'.history)
    (hrun : World.run schedule (shared pg host sha256 deps spec parties init) = some W) :
    (∃ W', World.run (schedule.filter fun x => (parties x.1).isHuman)
        (shared pg host sha256 deps spec parties init) = some W' ∧
      W.contents.rows = W'.contents.rows ∧ W.contents.approvals = W'.contents.approvals ∧
      answers (humans parties W.history) = answers W'.history) ∧
    ∀ e ∈ W.history, (parties e.client).isHuman = false → ∀ w ∈ e.writes, w.aside = true := by
  have hconfined : ∀ c, (parties c).isHuman = false →
      Confined (fun k => ∀ w : Write, k.Writes w → w.aside = true)
        ((parties c).run host sha256 deps spec : Async pg Thrown Unit) := by
    intro c hc
    cases hparty : parties c with
    | human call => simp [hparty, Party.isHuman] at hc
    | agent call => exact (confined_run call).mono fun k hk w hw => hk.aside hw
  have hblind : ∀ c, (parties c).isHuman = true → (records pg).Similar Eq
      ((parties c).run host sha256 deps spec) ((parties c).run host sha256 deps spec) := by
    intro c hc
    cases hparty : parties c with
    | human call =>
      apply blind_serve.mono
      intro r r' hr
      cases hr with
      | ok h => rw [h]
      | error => rfl
    | agent call => simp [hparty, Party.isHuman] at hc
  constructor
  · have hfail : ∀ s, s <+: schedule → ∀ V V',
        World.run s (shared pg host sha256 deps spec parties init) = some V →
        World.run (s.filter fun x => (parties x.1).isHuman)
          (shared pg host sha256 deps spec parties init) = some V' →
        (records pg).FailAlike (Observation.observed (fun c => (parties c).isHuman) V.history)
          V'.history := by
      intro s hs V V' hV hV' p hp hunsettled
      exact halike s hs V V' hV hV' p hp (isAppend_of_unsettled hunsettled)
    obtain ⟨W', hrun', hrelated⟩ :=
      Observation.noninterference (O := records pg) ⟨rfl, rfl⟩ hblind hconfined hfail hrun
    exact ⟨W', hrun', hrelated.contents.rows, hrelated.contents.approvals,
      answers_eq_of_same hrelated.history⟩
  · intro e he hagent w hw
    have hdeeds := deeds_of_run (P := fun c (k : Cmd (store pg)) => (parties c).isHuman = true ∨
        ∀ w : Write, k.Writes w → w.aside = true) (by
      intro c
      cases hc : (parties c).isHuman with
      | true => exact confined_of_forall fun _ => .inl rfl
      | false => exact (hconfined c hc).mono fun _ hk => .inr hk) hrun
    obtain ⟨k, hhuman | haside, hwrites⟩ := hdeeds.writes e he w hw
    · rw [hagent] at hhuman
      exact absurd hhuman (by simp)
    · exact haside w hwrites

/-- A hash that tells actors of different initials apart. -/
def initialHash (s : String) : String :=
  String.singleton (Char.ofNat (s.toByteArray.data.toList.getD 10 0).toNat)

/-- A person is denied to close the risk of a vendor while a task proposes to approve it. -/
def vendorParty : Bool → Party
  | true => .human (.transition (fire riskReview close "kim"))
  | false => .agent (proposing (proposal "vendor-approval" "approve"))

def vendorSchedule : List (Bool × Choice) :=
  (List.replicate 5 true ++ List.replicate 11 false ++ List.replicate 8 true).map fun c =>
    (c, { untroubled with decision := some refused })

theorem agents_do_not_interfere_vendor :
    ∃ W, World.run vendorSchedule (shared postgresText plainHost initialHash noTools reviewApp
        vendorParty oneVendor) = some W ∧
      W.contents.proposals.length = 1 ∧ W.contents.audit.length = 2 ∧
      (answers W.history).length = 1 ∧
      (∃ W', World.run (vendorSchedule.filter fun x => (vendorParty x.1).isHuman)
          (shared postgresText plainHost initialHash noTools reviewApp vendorParty oneVendor) =
            some W' ∧
        W.contents.rows = W'.contents.rows ∧ W.contents.approvals = W'.contents.approvals ∧
        answers (humans vendorParty W.history) = answers W'.history) ∧
      ∀ e ∈ W.history, (vendorParty e.client).isHuman = false → ∀ w ∈ e.writes, w.aside = true := by
  have hboth : (World.run vendorSchedule (shared postgresText plainHost initialHash noTools
      reviewApp vendorParty oneVendor)).map (fun W => (W.contents.proposals.length,
        W.contents.audit.length, (answers W.history).length,
        W.history.all fun e => e.reply.isSome)) = some (1, 2, 1, true) := by decide +kernel
  have halone : (World.run (vendorSchedule.filter fun x => (vendorParty x.1).isHuman)
      (shared postgresText plainHost initialHash noTools reviewApp vendorParty oneVendor)).map
      (fun W => W.history.all fun e => e.reply.isSome) = some true := by decide +kernel
  obtain ⟨W, hrun, hfacts⟩ := Option.map_eq_some_iff.mp hboth
  obtain ⟨V₀, hrun₀, hreplies₀⟩ := Option.map_eq_some_iff.mp halone
  simp only [Prod.mk.injEq] at hfacts
  obtain ⟨hproposals, haudit, hanswers, hreplies⟩ := hfacts
  refine ⟨W, hrun, hproposals, haudit, hanswers, agents_do_not_interfere ?_ hrun⟩
  -- no command fails, with the task or without it
  rintro s ⟨rest, hrest⟩ V V' hV hV' p hp -
  rw [← hrest] at hrun hrun₀
  rw [List.filter_append] at hrun₀
  obtain ⟨hleft, hright⟩ := List.of_mem_zip hp
  have hmem := (World.history_prefix_of_run hrun hV).subset (List.mem_filter.mp hleft).1
  have hmem' := (World.history_prefix_of_run hrun₀ hV').subset hright
  exact (List.all_eq_true.mp hreplies _ hmem).trans (List.all_eq_true.mp hreplies₀ _ hmem').symm

end Runs

end OpenRupiv.Agents
