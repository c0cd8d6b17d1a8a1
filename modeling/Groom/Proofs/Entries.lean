import Groom.StringMap

/-! Entries with distinct keys. They can be gone through one after another, each of them taken or
refused whatever came before it; if each key sets a part of the result that no other touches, the
result tells of every entry, in whatever order they came. A map keeps them all. -/
namespace Groom

section Fold

variable {α β ε γ V : Type} {step : α → β → Except ε α}

/-- A list is gone through to its end exactly if no member is refused. -/
theorem foldlM_ok_iff (good : β → Prop) {xs : List β}
    (hgood : ∀ x ∈ xs, ∀ a, (∃ a', step a x = .ok a') ↔ good x) {a : α} :
    (∃ a', xs.foldlM step a = .ok a') ↔ ∀ x ∈ xs, good x := by
  induction xs generalizing a with
  | nil => exact ⟨fun _ => nofun, fun _ => ⟨a, rfl⟩⟩
  | cons x rest ih =>
    obtain ⟨hx, hrest⟩ := List.forall_mem_cons.mp hgood
    rw [List.foldlM_cons, List.forall_mem_cons, ← hx a]
    cases hstep : step a x with
    | error e => simp [bind, Except.bind]
    | ok b => simpa [bind, Except.bind] using ih hrest

theorem foldlM_cons_eq_ok {xs : List β} {x : β} {a a' : α}
    (h : (x :: xs).foldlM step a = .ok a') :
    ∃ b, step a x = .ok b ∧ xs.foldlM step b = .ok a' := by
  rw [List.foldlM_cons] at h
  cases hx : step a x with
  | error e =>
    rw [hx] at h
    cases h
  | ok b =>
    rw [hx] at h
    exact ⟨b, rfl, h⟩

/-- Of entries with distinct keys, a part of the result that only one key sets tells what its entry
held; without that entry it is as it was. -/
theorem part_of_foldlM {step : α → String × V → Except ε α} (key : String) (part : α → γ)
    (sets : V → γ → Prop) (hset : ∀ a v a', step a (key, v) = .ok a' → sets v (part a'))
    (hother : ∀ a e a', e.1 ≠ key → step a e = .ok a' → part a' = part a)
    {es : List (String × V)} (hkeys : (es.map Prod.fst).Nodup) {a a' : α}
    (h : es.foldlM step a = .ok a') :
    (∀ v, (key, v) ∈ es → sets v (part a')) ∧ ((∀ v, (key, v) ∉ es) → part a' = part a) := by
  induction es generalizing a with
  | nil =>
    cases h
    exact ⟨nofun, fun _ => rfl⟩
  | cons e rest ih =>
    obtain ⟨b, he, hrest⟩ := foldlM_cons_eq_ok h
    obtain ⟨hnew, hnodup⟩ := List.nodup_cons.mp hkeys
    obtain ⟨hmem, hnone⟩ := ih hnodup hrest
    by_cases hkey : e.1 = key
    · obtain ⟨k, v⟩ := e
      obtain rfl : k = key := hkey
      have hlater (v' : V) : (k, v') ∉ rest := fun hv => hnew (List.mem_map.mpr ⟨_, hv, rfl⟩)
      refine ⟨fun v' hv' => ?_, fun habsent => absurd List.mem_cons_self (habsent v)⟩
      obtain heq | hv' := List.mem_cons.mp hv'
      · cases heq
        rw [hnone hlater]
        exact hset a v b he
      · exact absurd hv' (hlater v')
    · refine ⟨fun v hv => ?_, fun habsent => ?_⟩
      · obtain rfl | hv := List.mem_cons.mp hv
        · exact absurd rfl hkey
        · exact hmem v hv
      · rw [hnone fun v hv => habsent v (List.mem_cons_of_mem _ hv), hother a e b hkey he]

/-- So a part that is missing at first is there in the end if an entry has set it. -/
theorem part_eq_some_iff {step : α → String × V → Except ε α} (key : String) (part : α → Option γ)
    (sets : V → γ → Prop)
    (hset : ∀ a v a', step a (key, v) = .ok a' → ∀ c, part a' = some c ↔ sets v c)
    (hother : ∀ a e a', e.1 ≠ key → step a e = .ok a' → part a' = part a)
    {es : List (String × V)} (hkeys : (es.map Prod.fst).Nodup) {a a' : α}
    (h : es.foldlM step a = .ok a') (hstart : part a = none) {c : γ} :
    part a' = some c ↔ ∃ v, (key, v) ∈ es ∧ sets v c := by
  obtain ⟨hmem, hnone⟩ :=
    part_of_foldlM key part (fun v c? => ∀ c, c? = some c ↔ sets v c) hset hother hkeys h
  constructor
  · intro hpart
    by_cases hthere : ∃ v, (key, v) ∈ es
    · obtain ⟨v, hv⟩ := hthere
      exact ⟨v, hv, (hmem v hv c).mp hpart⟩
    · rw [hnone fun v hv => hthere ⟨v, hv⟩, hstart] at hpart
      cases hpart
  · rintro ⟨v, hv, hsets⟩
    exact (hmem v hv c).mpr hsets

end Fold

namespace StringMap

variable {α : Type} {es : List (String × α)}

theorem look_eq_none {key : String} (h : key ∉ es.map Prod.fst) : look key es = none := by
  induction es with
  | nil => rfl
  | cons e rest ih =>
    rw [List.map_cons, List.mem_cons, not_or] at h
    simp only [look, if_neg (Ne.symm h.1), ih h.2]

theorem put_perm {key : String} {a : α} (h : key ∉ es.map Prod.fst) :
    (put key a es).Perm ((key, a) :: es) := by
  induction es with
  | nil => exact .refl _
  | cons e rest ih =>
    obtain ⟨k, b⟩ := e
    rw [List.map_cons, List.mem_cons, not_or] at h
    simp only [put, if_neg (Ne.symm h.1)]
    split
    · exact .refl _
    · exact ((ih h.2).cons _).trans (.swap ..)

/-- A map keeps entries with distinct keys. -/
theorem ofList_perm (hkeys : (es.map Prod.fst).Nodup) : (ofList es).entries.Perm es := by
  have hfold (m : StringMap α) (hall : ((m.entries ++ es).map Prod.fst).Nodup) :
      (es.foldl (fun m e => m.insert e.1 e.2) m).entries.Perm (m.entries ++ es) := by
    clear hkeys
    induction es generalizing m with
    | nil => simp
    | cons e rest ih =>
      have hperm : (m.entries ++ e :: rest).Perm (e :: (m.entries ++ rest)) := List.perm_middle
      have hnodup := (hperm.map Prod.fst).nodup hall
      obtain ⟨hnew, -⟩ := List.nodup_cons.mp hnodup
      have hput : (m.insert e.1 e.2).entries.Perm (e :: m.entries) :=
        put_perm fun h => hnew (by
          rw [List.map_append]
          exact List.mem_append_left _ h)
      have happend : ((m.insert e.1 e.2).entries ++ rest).Perm (e :: (m.entries ++ rest)) :=
        hput.append_right rest
      have hlater := ih (m.insert e.1 e.2) ((happend.map Prod.fst).symm.nodup hnodup)
      exact hlater.trans (happend.trans hperm.symm)
  exact hfold {} hkeys

theorem nodup_keys (m : StringMap α) : (m.entries.map Prod.fst).Nodup := by
  rw [List.Nodup, List.pairwise_map]
  refine m.sorted.imp ?_
  intro e f h heq
  exact String.lt_irrefl f.1 (heq ▸ h)

theorem mem_entries_iff {m : StringMap α} {key : String} {a : α} :
    (key, a) ∈ m.entries ↔ m.get? key = some a := by
  have hlook {es : List (String × α)} (hkeys : (es.map Prod.fst).Nodup) :
      (key, a) ∈ es ↔ look key es = some a := by
    induction es with
    | nil => simp [look]
    | cons e rest ih =>
      obtain ⟨k, b⟩ := e
      obtain ⟨hnew, hrest⟩ := List.nodup_cons.mp hkeys
      by_cases hk : k = key
      · subst hk
        have hlater : (k, a) ∉ rest := fun h => hnew (List.mem_map.mpr ⟨_, h, rfl⟩)
        simp [look, hlater, eq_comm]
      · simp [look, hk, Ne.symm hk, ih hrest]
  exact hlook m.nodup_keys

end StringMap

end Groom
