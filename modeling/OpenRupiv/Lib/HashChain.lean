import Mathlib.Data.List.Induction
import Mathlib.Data.List.Forall2
import Mathlib.Logic.Function.Iterate
import Mathlib.Tactic.Common

/-!
# Hash chains

Entries carry a sequence number, their own digest and the digest of the entry before.  An entry
follows another when it has the next number and names its digest; a chain starts from the first
number and a fixed genesis digest.

When digests determine what they are taken over, an entry determines everything before it, so two
chains that end in one digest agree throughout, and a chain made of entries of another chain is a
prefix of it.
-/

namespace OpenRupiv.Lib

/-- The numbers 1, …, n. -/
def oneTo (n : Nat) : List Int := (List.range n).map fun i : Nat => (i : Int) + 1

@[simp] theorem length_oneTo (n : Nat) : (oneTo n).length = n := by
  simp [oneTo]

@[simp] theorem oneTo_zero : oneTo 0 = [] := rfl

theorem oneTo_succ (n : Nat) : oneTo (n + 1) = oneTo n ++ [(n : Int) + 1] := by
  simp [oneTo, List.range_succ]

theorem mem_oneTo {n : Nat} {i : Int} : i ∈ oneTo n ↔ 1 ≤ i ∧ i ≤ n := by
  simp only [oneTo, List.mem_map, List.mem_range]
  constructor
  · rintro ⟨k, hk, rfl⟩
    omega
  · rintro ⟨h1, hn⟩
    exact ⟨(i - 1).toNat, by omega, by omega⟩

theorem pairwise_oneTo (n : Nat) : (oneTo n).Pairwise (· < ·) := by
  rw [oneTo, List.pairwise_map]
  apply List.pairwise_lt_range.imp
  intro i j hij
  omega

/-- Where an entry of a chain keeps its number and digests, and how the numbers run. -/
structure HashChain (ρ σ δ : Type) where
  seq : ρ → σ
  back : ρ → δ
  digest : ρ → δ
  genesis : δ
  first : σ
  next : σ → σ

namespace HashChain

variable {ρ σ δ : Type} (c : HashChain ρ σ δ)

def nextSeq : Option ρ → σ
  | none => c.first
  | some p => c.next (c.seq p)

def nextBack : Option ρ → δ
  | none => c.genesis
  | some p => c.digest p

/-- `r` is a correct successor of the entry `prev`. -/
def Follows (prev : Option ρ) (r : ρ) : Prop :=
  c.seq r = c.nextSeq prev ∧ c.back r = c.nextBack prev

def Chained : Option ρ → List ρ → Prop
  | _, [] => True
  | prev, r :: rest => c.Follows prev r ∧ Chained (some r) rest

variable {c}

@[simp] theorem chained_nil (prev : Option ρ) : c.Chained prev [] := trivial

@[simp] theorem chained_cons {prev : Option ρ} {r : ρ} {rest : List ρ} :
    c.Chained prev (r :: rest) ↔ c.Follows prev r ∧ c.Chained (some r) rest := Iff.rfl

theorem chained_append {prev : Option ρ} {l m : List ρ} :
    c.Chained prev (l ++ m) ↔ c.Chained prev l ∧ c.Chained (l.getLast?.or prev) m := by
  induction l generalizing prev with
  | nil => simp
  | cons r rest ih =>
    rw [List.cons_append, chained_cons, chained_cons, ih, and_assoc]
    cases rest with
    | nil => simp
    | cons r' rest => simp [List.getLast?_cons]

theorem chained_concat {l : List ρ} {r : ρ} :
    c.Chained none (l ++ [r]) ↔ c.Chained none l ∧ c.Follows l.getLast? r := by
  simp [chained_append]

theorem seq_eq_iterate {l : List ρ} {r : ρ} (h : c.Chained none (l ++ [r])) :
    c.seq r = c.next^[l.length] c.first := by
  induction l using List.reverseRecOn generalizing r with
  | nil =>
    rw [chained_concat] at h
    exact h.2.1
  | append_singleton l p ih =>
    rw [chained_concat] at h
    obtain ⟨hl, hseq, -⟩ := h
    rw [hseq, List.getLast?_concat, nextSeq, ih hl, List.length_append, List.length_singleton,
      Function.iterate_succ_apply']

section Commitment

/-! `Same` is agreement on what a digest is taken over. -/

variable {Same : ρ → ρ → Prop}

/-- Two chains whose last entries agree have the same length and agree throughout. -/
theorem forall₂_of_last (hfirst : ∀ n, c.next^[n + 1] c.first ≠ c.first)
    (hsame : ∀ {r r'}, Same r r' → c.seq r = c.seq r' ∧ c.back r = c.back r')
    {l l' : List ρ} {r r' : ρ}
    (hcommit : ∀ p ∈ l, ∀ p' ∈ l', c.digest p = c.digest p' → Same p p')
    (h : c.Chained none (l ++ [r])) (h' : c.Chained none (l' ++ [r'])) (hr : Same r r') :
    List.Forall₂ Same (l ++ [r]) (l' ++ [r']) := by
  induction l using List.reverseRecOn generalizing r r' l' with
  | nil =>
    cases l' using List.reverseRecOn with
    | nil => simpa using hr
    | append_singleton l' p' =>
      -- `r` has the first number, `r'` a later one
      have hseq := (hsame hr).1
      rw [seq_eq_iterate h, seq_eq_iterate h', List.length_append, List.length_singleton] at hseq
      exact absurd hseq.symm (hfirst _)
  | append_singleton l p ih =>
    cases l' using List.reverseRecOn with
    | nil =>
      have hseq := (hsame hr).1
      rw [seq_eq_iterate h, seq_eq_iterate h', List.length_append, List.length_singleton] at hseq
      exact absurd hseq (hfirst _)
    | append_singleton l' p' =>
      have hback := (hsame hr).2
      rw [chained_concat] at h h'
      rw [h.2.2, h'.2.2, List.getLast?_concat, List.getLast?_concat] at hback
      have hp : Same p p' := hcommit p (by simp) p' (by simp) hback
      have hinit := ih (fun q hq q' hq' => hcommit q (by simp [hq]) q' (by simp [hq'])) h.1 h'.1 hp
      exact List.rel_append hinit (by simpa using hr)

theorem prefix_of_subset (hfirst : ∀ n, c.next^[n + 1] c.first ≠ c.first)
    (hsame : ∀ {r r'}, Same r r' → c.seq r = c.seq r' ∧ c.back r = c.back r')
    (hrefl : ∀ r, Same r r) {l l' : List ρ}
    (hcommit : ∀ p ∈ l', ∀ p' ∈ l, c.digest p = c.digest p' → Same p p')
    (h : c.Chained none l) (h' : c.Chained none l') (hsub : l' ⊆ l) : l' <+: l := by
  induction l' using List.reverseRecOn with
  | nil => exact List.nil_prefix
  | append_singleton q r ih =>
    have hq : q <+: l := ih (fun p hp => hcommit p (by simp [hp])) (chained_concat.mp h').1
      fun p hp => hsub (by simp [hp])
    obtain ⟨pre, post, rfl⟩ := List.append_of_mem (hsub (by simp : r ∈ q ++ [r]))
    have hpre : c.Chained none (pre ++ [r]) := by
      rw [← List.singleton_append, ← List.append_assoc, chained_append] at h
      exact h.1
    have hall := forall₂_of_last hfirst hsame
      (fun p hp p' hp' => hcommit p (by simp [hp]) p' (by simp [hp'])) h' hpre (hrefl r)
    have hlen : q.length = pre.length := by
      have := hall.length_eq
      simpa using this
    -- both are prefixes of `l` of one length
    have hqpre : q = pre :=
      (List.prefix_of_prefix_length_le hq (List.prefix_append _ _) (by omega)).eq_of_length hlen
    rw [hqpre]
    exact ⟨post, by simp⟩

theorem chained_of_prefix {l l' : List ρ} (h : c.Chained none l) (hp : l' <+: l) :
    c.Chained none l' := by
  obtain ⟨t, rfl⟩ := hp
  exact (chained_append.mp h).1

end Commitment

end HashChain

end OpenRupiv.Lib
