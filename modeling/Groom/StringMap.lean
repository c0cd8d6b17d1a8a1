/-!
Finite maps with texts as keys. The entries stand in the order of their keys, each key once, so
equal maps have equal entries.
-/
namespace Groom

/-- A finite map from texts. -/
structure StringMap (α : Type) where
  entries : List (String × α) := []
  sorted : entries.Pairwise (fun a b => a.1 < b.1) := by exact List.Pairwise.nil
  deriving DecidableEq, Repr

namespace StringMap

variable {α : Type}

def empty : StringMap α := {}

/-- What entries in any order say about a key; the first one counts. -/
def look (key : String) : List (String × α) → Option α
  | [] => none
  | (k, a) :: rest => if k = key then some a else look key rest

def get? (m : StringMap α) (key : String) : Option α := look key m.entries

/-- Puts an entry into a list that is in order. -/
def put (key : String) (a : α) : List (String × α) → List (String × α)
  | [] => [(key, a)]
  | (k, b) :: rest =>
    if k = key then (key, a) :: rest
    else if key < k then (key, a) :: (k, b) :: rest
    else (k, b) :: put key a rest

theorem mem_put {key : String} {a : α} {es : List (String × α)} {e : String × α}
    (h : e ∈ put key a es) : e = (key, a) ∨ e ∈ es := by
  induction es with
  | nil => simpa [put] using h
  | cons f rest ih =>
    obtain ⟨k, b⟩ := f
    simp only [put] at h
    split at h
    · rcases List.mem_cons.1 h with h | h
      · exact Or.inl h
      · exact Or.inr (List.mem_cons_of_mem _ h)
    · split at h
      · rcases List.mem_cons.1 h with h | h
        · exact Or.inl h
        · exact Or.inr h
      · rcases List.mem_cons.1 h with h | h
        · exact Or.inr (by simp [h])
        · rcases ih h with h | h
          · exact Or.inl h
          · exact Or.inr (List.mem_cons_of_mem _ h)

theorem lt_of_not_lt_of_ne {a b : String} (h : ¬ b < a) (hne : a ≠ b) : a < b := by
  have hle : a ≤ b := String.not_lt.1 h
  by_cases hlt : a < b
  · exact hlt
  · exact absurd (String.le_antisymm hle (String.not_lt.1 hlt)) hne

theorem sorted_put (key : String) (a : α) {es : List (String × α)}
    (h : es.Pairwise (fun a b => a.1 < b.1)) :
    (put key a es).Pairwise (fun a b => a.1 < b.1) := by
  induction es with
  | nil => simp [put]
  | cons f rest ih =>
    obtain ⟨k, b⟩ := f
    rw [List.pairwise_cons] at h
    obtain ⟨hk, hrest⟩ := h
    simp only [put]
    split
    · rename_i hkey
      subst hkey
      exact List.pairwise_cons.2 ⟨hk, hrest⟩
    · rename_i hne
      split
      · rename_i hlt
        refine List.pairwise_cons.2 ⟨?_, List.pairwise_cons.2 ⟨hk, hrest⟩⟩
        intro e he
        rcases List.mem_cons.1 he with he | he
        · subst he
          exact hlt
        · exact String.lt_trans hlt (hk e he)
      · rename_i hnlt
        refine List.pairwise_cons.2 ⟨?_, ih hrest⟩
        intro e he
        rcases mem_put he with he | he
        · subst he
          exact lt_of_not_lt_of_ne hnlt hne
        · exact hk e he

def insert (m : StringMap α) (key : String) (a : α) : StringMap α :=
  ⟨put key a m.entries, sorted_put key a m.sorted⟩

/-- The map of some entries; of two entries with one key the later counts. -/
def ofList (es : List (String × α)) : StringMap α :=
  es.foldl (fun m e => m.insert e.1 e.2) {}

theorem look_put_self (key : String) (a : α) (es : List (String × α)) :
    look key (put key a es) = some a := by
  induction es with
  | nil => simp [put, look]
  | cons f rest ih =>
    obtain ⟨k, b⟩ := f
    by_cases hk : k = key
    · simp [put, look, hk]
    · by_cases hlt : key < k <;> simp [put, look, hk, hlt, ih]

theorem look_put_of_ne {key other : String} (a : α) (es : List (String × α)) (h : other ≠ key) :
    look other (put key a es) = look other es := by
  induction es with
  | nil => simp [put, look, Ne.symm h]
  | cons f rest ih =>
    obtain ⟨k, b⟩ := f
    by_cases hk : k = key
    · subst hk
      simp [put, look, Ne.symm h]
    · by_cases hlt : key < k
      · simp [put, look, hk, hlt, Ne.symm h]
      · by_cases ho : k = other
        · subst ho
          simp [put, look, hk, hlt]
        · simp [put, look, hk, hlt, ho, ih]

theorem get?_insert_self (m : StringMap α) (key : String) (a : α) :
    (m.insert key a).get? key = some a :=
  look_put_self key a m.entries

theorem get?_insert_of_ne (m : StringMap α) {key other : String} (a : α) (h : other ≠ key) :
    (m.insert key a).get? other = m.get? other :=
  look_put_of_ne a m.entries h

end StringMap

end Groom
