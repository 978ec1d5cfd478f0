import OpenRupiv.Audit.Attributes

/-!
# Attributes from object literals

The attributes of most records are written as object literals of texts and numbers.
-/

namespace OpenRupiv.Audit

open Js

def ofText (s : Text) : Value := ⟨.scalar (.str s), by simp⟩

def ofNat (n : Nat) : Value := ⟨.scalar (.num (.ofInt n)), by simp⟩

def ofTexts (ss : List String) : Value :=
  ⟨.arr (ss.map fun s => .scalar (.str (ofString s))), by simp⟩

def nullValue : Value := ⟨.scalar .null, by simp⟩

/-- `{ k₁: v₁, … }`. -/
def literal (entries : List (String × Value)) : Object where
  members := assignAll (entries.map fun e => (ofString e.1, e.2.json))
  distinct := by
    rw [Json.distinctKeys_obj]
    refine ⟨nodup_keys_assignAll _, ?_⟩
    intro m hm
    obtain ⟨e, -, rfl⟩ := List.mem_map.mp (mem_of_mem_assignAll hm)
    exact e.2.distinct

theorem lookup_literal {entries : List (String × Value)} (hnodup : (entries.map Prod.fst).Nodup)
    {k : String} {v : Value} (h : (k, v) ∈ entries) (hk : ofString k ≠ protoKey) :
    (literal entries).members.lookup (ofString k) = some v.json := by
  have hkeys : (keysOf (entries.map fun e => (ofString e.1, e.2.json))).Nodup := by
    have hmap : keysOf (entries.map fun e => (ofString e.1, e.2.json)) =
        (entries.map Prod.fst).map ofString := by
      simp [keysOf]
    rw [hmap]
    exact hnodup.map fun s t hst => ofString_inj.mp hst
  apply lookup_of_mem (nodup_keys_assignAll _)
  rw [assignAll_eq_filter hkeys]
  apply List.mem_filter.mpr
  refine ⟨List.mem_map_of_mem h, ?_⟩
  simpa using hk

theorem Shows.attribute {row : AuditRow} {input : AuditRecordInput} (h : Shows row input)
    {entries : List (String × Value)} (hinput : input.attributes = some (literal entries))
    (hnodup : (entries.map Prod.fst).Nodup) {k : String} {s : Text} (hs : (k, ofText s) ∈ entries)
    (hk : ofString k ≠ protoKey) (hsecret : isSecretKey (ofString k) = false) :
    row.attribute k = some s :=
  h.attributes _ k s hinput hk hsecret (lookup_literal hnodup hs hk)

end OpenRupiv.Audit
