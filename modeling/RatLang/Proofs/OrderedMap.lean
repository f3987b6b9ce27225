import RatLang.OrderedMap

/-!
# Looking up keys

In a list of pairs that has no key twice, what is looked up is what is there. So a map has a value
for a key exactly if it lists this pair, and inserting a key says whether it was there before.
-/

namespace RatLang

variable {κ α : Type} [DecidableEq κ] {key : κ} {value : α}

theorem lookup_eq_some_iff_mem {entries : List (κ × α)} (nodup : (entries.map Prod.fst).Nodup) :
    entries.lookup key = some value ↔ (key, value) ∈ entries := by
  rw [List.lookup_eq_some_iff]
  constructor
  · rintro ⟨front, behind, rfl, -⟩
    simp
  · intro mem
    obtain ⟨front, behind, rfl⟩ := List.append_of_mem mem
    refine ⟨front, behind, rfl, fun other before => bne_iff_ne.mpr fun same => ?_⟩
    rw [List.map_append, List.nodup_append] at nodup
    exact nodup.2.2 other.1 (List.mem_map_of_mem before) key (by simp) same.symm

theorem lookup_eq_none_iff_notMem {entries : List (κ × α)} :
    entries.lookup key = none ↔ ∀ value, (key, value) ∉ entries := by
  rw [List.lookup_eq_none_iff]
  constructor
  · intro absent value mem
    simpa using absent _ mem
  · rintro absent ⟨other, value⟩ mem
    refine bne_iff_ne.mpr ?_
    rintro rfl
    exact absent value mem

namespace OrderedMap

variable {map : OrderedMap κ α}

theorem get?_eq_some_iff : map.get? key = some value ↔ (key, value) ∈ map.entries :=
  lookup_eq_some_iff_mem map.nodup

theorem get?_eq_none_iff : map.get? key = none ↔ key ∉ map.entries.map Prod.fst := by
  rw [get?, lookup_eq_none_iff_notMem]
  simp

theorem put_of_notMem {entries : List (κ × α)} (fresh : key ∉ entries.map Prod.fst) :
    put key value entries = entries ++ [(key, value)] := by
  induction entries with
  | nil => rfl
  | cons entry rest ih =>
    rw [List.map_cons, List.mem_cons, not_or] at fresh
    rw [put, if_neg (Ne.symm fresh.1), ih fresh.2, List.cons_append]

/-- A key that is new replaces nothing and comes last. -/
theorem insert_of_notMem (fresh : key ∉ map.entries.map Prod.fst) :
    ∃ larger, map.insert key value = (none, larger) ∧
      larger.entries = map.entries ++ [(key, value)] :=
  ⟨_, Prod.ext (get?_eq_none_iff.mpr fresh) rfl, put_of_notMem fresh⟩

/-- A key that is there has a value, which is replaced. -/
theorem insert_of_mem (taken : key ∈ map.entries.map Prod.fst) :
    ∃ old replaced, map.insert key value = (some old, replaced) := by
  obtain ⟨⟨_, old⟩, mem, rfl⟩ := List.mem_map.mp taken
  exact ⟨old, _, Prod.ext (get?_eq_some_iff.mpr mem) rfl⟩

end OrderedMap

end RatLang
