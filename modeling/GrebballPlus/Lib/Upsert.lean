import Mathlib.Data.List.Induction
import Mathlib.Data.List.Nodup
import Mathlib.Tactic.Common

/-! Keyed lists under assignment. A stored key is an object of its own, compared
through `key`: assigning to a key that is present keeps the stored object and
replaces the value. Many assignments leave the last value of each key, nothing that was
assigned is lost exactly when no key repeats, and what is stored and what was displaced
are together what was assigned. -/

namespace Lib

variable {κ α β : Type*} [DecidableEq κ] (key : α → κ)

def upsert : List (α × β) → α → β → List (α × β)
  | [], a, b => [(a, b)]
  | e :: l, a, b => if key e.1 = key a then (e.1, b) :: l else e :: upsert l a b

def lookup (l : List (α × β)) (k : κ) : Option β :=
  (l.find? fun e => key e.1 = k).map Prod.snd

def keys (l : List (α × β)) : List κ := l.map fun e => key e.1

def upsertAll (l ps : List (α × β)) : List (α × β) :=
  ps.foldl (fun l e => upsert key l e.1 e.2) l

/-- What an assignment displaces where the key is present: the new key object, which is
not stored, and the value that was. -/
def displaced (l : List (α × β)) (a : α) : Option (α × β) :=
  (lookup key l (key a)).map fun old => (a, old)

def displacedAll : List (α × β) → List (α × β) → List (α × β)
  | _, [] => []
  | l, e :: ps => (displaced key l e.1).toList ++ displacedAll (upsert key l e.1 e.2) ps

def objects (l : List (α × α)) : List α := l.flatMap fun (a, b) => [a, b]

variable {key} {l ps : List (α × β)} {a : α} {b : β}

theorem upsert_of_not_mem (h : key a ∉ keys key l) : upsert key l a b = l ++ [(a, b)] := by
  induction l with
  | nil => rfl
  | cons e l ih =>
    simp only [keys, List.map_cons, List.mem_cons, not_or] at h
    rw [upsert, if_neg (Ne.symm h.1), ih h.2, List.cons_append]

theorem keys_upsert_of_mem (h : key a ∈ keys key l) :
    keys key (upsert key l a b) = keys key l := by
  induction l with
  | nil => simp [keys] at h
  | cons e l ih =>
    rw [upsert]
    split_ifs with he
    · rfl
    · have hl : key a ∈ keys key l := by
        simpa [keys, Ne.symm he] using h
      exact congrArg (key e.1 :: ·) (ih hl)

theorem keys_upsert_of_not_mem (h : key a ∉ keys key l) :
    keys key (upsert key l a b) = keys key l ++ [key a] := by
  rw [upsert_of_not_mem h, keys, List.map_append]
  rfl

theorem nodup_upsert (h : (keys key l).Nodup) : (keys key (upsert key l a b)).Nodup := by
  by_cases hm : key a ∈ keys key l
  · rwa [keys_upsert_of_mem hm]
  · rw [keys_upsert_of_not_mem hm]
    exact List.nodup_append.mpr ⟨h, List.nodup_singleton _, fun k hk k' hk' heq =>
      hm (List.mem_singleton.mp hk' ▸ heq ▸ hk)⟩

theorem mem_keys_upsert (k : κ) :
    k ∈ keys key (upsert key l a b) ↔ k ∈ keys key l ∨ k = key a := by
  by_cases hm : key a ∈ keys key l
  · rw [keys_upsert_of_mem hm]
    exact ⟨Or.inl, fun h => h.elim id fun hk => hk ▸ hm⟩
  · rw [keys_upsert_of_not_mem hm, List.mem_append, List.mem_singleton]

theorem lookup_upsert (k : κ) :
    lookup key (upsert key l a b) k = if key a = k then some b else lookup key l k := by
  induction l with
  | nil => by_cases hk : key a = k <;> simp [upsert, lookup, hk]
  | cons e l ih =>
    rw [upsert]
    by_cases he : key e.1 = key a
    · by_cases hk : key a = k <;> simp [lookup, he, hk]
    · rw [if_neg he]
      by_cases hk : key e.1 = k
      · have hak : key a ≠ k := fun h => he (hk.trans h.symm)
        simp [lookup, hk, hak]
      · have hcons : ∀ l' : List (α × β), lookup key (e :: l') k = lookup key l' k := by
          intro l'
          simp [lookup, hk]
        rw [hcons, hcons, ih]

theorem upsertAll_concat (e : α × β) :
    upsertAll key l (ps ++ [e]) = upsert key (upsertAll key l ps) e.1 e.2 := by
  simp [upsertAll, List.foldl_append]

theorem lookup_upsertAll (k : κ) :
    lookup key (upsertAll key [] ps) k =
      ((ps.filter fun e => key e.1 = k).getLast?).map Prod.snd := by
  induction ps using List.reverseRecOn with
  | nil => rfl
  | append_singleton ps e ih =>
    rw [upsertAll_concat, lookup_upsert, ih, List.filter_append]
    by_cases hk : key e.1 = k <;> simp [hk]

theorem mem_keys_upsertAll (k : κ) :
    k ∈ keys key (upsertAll key [] ps) ↔ k ∈ keys key ps := by
  induction ps using List.reverseRecOn with
  | nil => rfl
  | append_singleton ps e ih =>
    rw [upsertAll_concat, mem_keys_upsert, ih]
    simp [keys]

theorem upsertAll_of_nodup (h : (keys key ps).Nodup) : upsertAll key [] ps = ps := by
  induction ps using List.reverseRecOn with
  | nil => rfl
  | append_singleton ps e ih =>
    simp only [keys, List.map_append, List.map_cons, List.map_nil, List.nodup_append] at h
    have hps := ih h.1
    rw [upsertAll_concat, hps]
    exact upsert_of_not_mem fun hm => h.2.2 _ hm _ (List.mem_singleton_self _) rfl

theorem fst_upsert : (upsert key l a b).map Prod.fst =
    if key a ∈ keys key l then l.map Prod.fst else l.map Prod.fst ++ [a] := by
  induction l with
  | nil => rfl
  | cons e l ih =>
    by_cases he : key e.1 = key a
    · rw [upsert, if_pos he, if_pos (by simp [keys, he])]
      rfl
    · have hmem : key a ∈ keys key (e :: l) ↔ key a ∈ keys key l := by
        simp [keys, Ne.symm he]
      rw [upsert, if_neg he, List.map_cons, ih]
      simp only [hmem]
      split_ifs <;> rfl

theorem fst_upsertAll_subset : (upsertAll key [] ps).map Prod.fst ⊆ ps.map Prod.fst := by
  induction ps using List.reverseRecOn with
  | nil => exact List.Subset.refl _
  | append_singleton ps e ih =>
    rw [upsertAll_concat, fst_upsert, List.map_append]
    split_ifs
    · exact List.subset_append_of_subset_left _ ih
    · exact List.append_subset.mpr ⟨List.subset_append_of_subset_left _ ih,
        List.subset_append_right _ _⟩

theorem nodup_upsertAll : (keys key (upsertAll key [] ps)).Nodup := by
  induction ps using List.reverseRecOn with
  | nil => exact List.nodup_nil
  | append_singleton ps e ih =>
    rw [upsertAll_concat]
    exact nodup_upsert ih

theorem mem_snd_iff (h : (keys key l).Nodup) (v : β) :
    v ∈ l.map Prod.snd ↔ ∃ k, lookup key l k = some v := by
  constructor
  · intro hv
    induction l with
    | nil => cases hv
    | cons e l ih =>
      rw [keys, List.map_cons, List.nodup_cons] at h
      rcases List.mem_cons.mp hv with rfl | hv
      · exact ⟨key e.1, by simp [lookup]⟩
      · obtain ⟨k, hk⟩ := ih h.2 hv
        obtain ⟨e', hfind, -⟩ := Option.map_eq_some_iff.mp hk
        have hkey : key e'.1 = k := by simpa using List.find?_some hfind
        have hne : key e.1 ≠ k := by
          rintro rfl
          exact h.1 (List.mem_map.mpr ⟨e', List.mem_of_find?_eq_some hfind, hkey⟩)
        exact ⟨k, by rwa [lookup, List.find?_cons_of_neg (by simpa using hne)]⟩
  · rintro ⟨k, hk⟩
    obtain ⟨e, hfind, rfl⟩ := Option.map_eq_some_iff.mp hk
    exact List.mem_map_of_mem (List.mem_of_find?_eq_some hfind)

theorem snd_upsertAll_subset : (upsertAll key [] ps).map Prod.snd ⊆ ps.map Prod.snd := by
  intro v hv
  obtain ⟨k, hk⟩ := (mem_snd_iff nodup_upsertAll v).mp hv
  rw [lookup_upsertAll, Option.map_eq_some_iff] at hk
  obtain ⟨e, he, rfl⟩ := hk
  exact List.mem_map_of_mem (List.mem_of_mem_filter (List.mem_of_getLast? he))

section

variable {before after : List (α × β)}

theorem mem_fst_upsertAll (hb : a ∉ before.map Prod.fst) (ha : a ∉ after.map Prod.fst) :
    a ∈ (upsertAll key [] (before ++ (a, b) :: after)).map Prod.fst ↔ key a ∉ keys key before := by
  induction after using List.reverseRecOn with
  | nil =>
    rw [upsertAll_concat, fst_upsert]
    have hold : a ∉ (upsertAll key [] before).map Prod.fst := fun hm => hb (fst_upsertAll_subset hm)
    simp only [mem_keys_upsertAll]
    split_ifs with hk
    · exact iff_of_false hold fun hno => hno hk
    · exact iff_of_true (List.mem_append_right _ (List.mem_singleton_self a)) hk
  | append_singleton after e ih =>
    rw [List.map_append, List.mem_append, not_or] at ha
    have hne : a ≠ e.1 := fun h => ha.2 (by simp [h])
    rw [← ih ha.1, ← List.cons_append, ← List.append_assoc, upsertAll_concat, fst_upsert]
    split_ifs
    · rfl
    · simp [hne]

theorem mem_snd_upsertAll (hb : b ∉ before.map Prod.snd) (ha : b ∉ after.map Prod.snd) :
    b ∈ (upsertAll key [] (before ++ (a, b) :: after)).map Prod.snd ↔ key a ∉ keys key after := by
  rw [mem_snd_iff nodup_upsertAll]
  simp only [lookup_upsertAll, Option.map_eq_some_iff]
  constructor
  · rintro ⟨k, ⟨x, v⟩, hlast, hv⟩ hagain
    obtain rfl : v = b := hv
    have hmem := List.mem_of_getLast? hlast
    have hkey : key x = k := by simpa using (List.mem_filter.mp hmem).2
    rcases List.mem_append.mp (List.mem_of_mem_filter hmem) with he | he
    · exact hb (List.mem_map_of_mem he)
    · rcases List.mem_cons.mp he with he | he
      · -- the last entry with this key is behind it
        obtain rfl : x = a := congrArg Prod.fst he
        obtain ⟨e', he', hk'⟩ := List.mem_map.mp hagain
        have hfilter : after.filter (fun e => key e.1 = k) ≠ [] :=
          List.ne_nil_of_mem (List.mem_filter.mpr ⟨he', by simpa using hk'.trans hkey⟩)
        rw [List.filter_append, List.filter_cons_of_pos (by simpa using hkey),
          List.getLast?_append, List.getLast?_cons, List.getLast?_eq_some_getLast hfilter] at hlast
        have hlast' := Option.some.inj hlast
        simp only [Option.getD_some] at hlast'
        refine ha (List.mem_map.mpr ⟨_, List.mem_of_mem_filter (List.getLast_mem hfilter), ?_⟩)
        rw [hlast']
      · exact ha (List.mem_map_of_mem he)
  · intro hnew
    have hfilter : after.filter (fun e => key e.1 = key a) = [] := by
      rw [List.filter_eq_nil_iff]
      exact fun e he hk => hnew (List.mem_map.mpr ⟨e, he, by simpa using hk⟩)
    refine ⟨key a, (a, b), ?_, rfl⟩
    rw [List.filter_append, List.filter_cons_of_pos (by simp), hfilter, List.getLast?_concat]

end

theorem displaced_eq_none : displaced key l a = none ↔ key a ∉ keys key l := by
  rw [displaced, Option.map_eq_none_iff, lookup, Option.map_eq_none_iff, List.find?_eq_none]
  simp [keys]

theorem displacedAll_eq_nil :
    displacedAll key l ps = [] ↔ (keys key ps).Nodup ∧ ∀ k ∈ keys key ps, k ∉ keys key l := by
  induction ps generalizing l with
  | nil => simp [displacedAll, keys]
  | cons e ps ih =>
    have hkeys : keys key (e :: ps) = key e.1 :: keys key ps := rfl
    rw [displacedAll, List.append_eq_nil_iff, ih, Option.toList_eq_nil_iff, displaced_eq_none,
      hkeys, List.nodup_cons, List.forall_mem_cons]
    simp only [mem_keys_upsert, not_or]
    refine ⟨fun ⟨hnew, hnd, hps⟩ => ?_, fun ⟨⟨hne, hnd⟩, hnew, hps⟩ => ?_⟩
    · exact ⟨⟨fun hm => (hps _ hm).2 rfl, hnd⟩, hnew, fun k hk => (hps k hk).1⟩
    · exact ⟨hnew, hnd, fun k hk => ⟨hps k hk, ne_of_mem_of_not_mem hk hne⟩⟩

@[simp] theorem objects_nil : objects ([] : List (α × α)) = [] := rfl

@[simp] theorem objects_cons (e : α × α) (l : List (α × α)) :
    objects (e :: l) = e.1 :: e.2 :: objects l := rfl

@[simp] theorem objects_append (l l' : List (α × α)) :
    objects (l ++ l') = objects l ++ objects l' := List.flatMap_append

theorem objects_eq_nil {l : List (α × α)} : objects l = [] ↔ l = [] := by
  cases l <;> simp

theorem objects_upsert_perm (key : α → κ) (l : List (α × α)) (a b : α) :
    (objects (upsert key l a b) ++ objects (displaced key l a).toList).Perm
      (objects l ++ [a, b]) := by
  induction l with
  | nil => exact List.Perm.refl _
  | cons e l ih =>
    by_cases he : key e.1 = key a
    · have hdisp : displaced key (e :: l) a = some (a, e.2) := by simp [displaced, lookup, he]
      rw [upsert, if_pos he, hdisp]
      simp only [Option.toList_some, objects_cons, objects_nil, List.cons_append]
      -- the old value and the new one change places
      classical
      rw [List.perm_iff_count]
      intro c
      simp only [List.count_cons, List.count_append, List.count_nil]
      omega
    · have hdisp : displaced key (e :: l) a = displaced key l a := by
        simp [displaced, lookup, he]
      rw [upsert, if_neg he, hdisp]
      exact (ih.cons e.2).cons e.1

theorem objects_upsertAll_perm (key : α → κ) (l ps : List (α × α)) :
    (objects (upsertAll key l ps) ++ objects (displacedAll key l ps)).Perm
      (objects l ++ objects ps) := by
  induction ps generalizing l with
  | nil => simp [upsertAll, displacedAll]
  | cons e ps ih =>
    have hone := (objects_upsert_perm key l e.1 e.2).append_right (objects ps)
    have hrest := (ih (upsert key l e.1 e.2)).append_left (objects (displaced key l e.1).toList)
    simp only [displacedAll, objects_append, objects_cons]
    refine (List.perm_append_comm_assoc _ _ _).trans (hrest.trans ?_)
    rw [← List.append_assoc]
    refine (List.perm_append_comm.append_right _).trans (hone.trans ?_)
    rw [List.append_assoc]
    exact List.Perm.refl _

theorem mem_objects {l : List (α × α)} {c : α} :
    c ∈ objects l ↔ c ∈ l.map Prod.fst ∨ c ∈ l.map Prod.snd := by
  induction l with
  | nil => simp
  | cons e l ih =>
    simp only [objects_cons, List.mem_cons, List.map_cons, ih]
    tauto

section

variable {before after : List (α × α)} {a b : α}

/-- Of objects that are told apart, a key object is displaced exactly when its key was
there, and a value exactly when its key is assigned to again. -/
theorem mem_displacedAll (key : α → κ) (hnd : (objects (before ++ (a, b) :: after)).Nodup) :
    (a ∈ objects (displacedAll key [] (before ++ (a, b) :: after)) ↔ key a ∈ keys key before) ∧
      (b ∈ objects (displacedAll key [] (before ++ (a, b) :: after)) ↔
        key a ∈ keys key after) := by
  have hledger := objects_upsertAll_perm key [] (before ++ (a, b) :: after)
  rw [objects_nil, List.nil_append] at hledger
  have hsplit := List.nodup_append.mp (hledger.nodup_iff.mpr hnd)
  have hother : ∀ c ∈ objects (before ++ (a, b) :: after),
      (c ∈ objects (displacedAll key [] (before ++ (a, b) :: after)) ↔
        c ∉ objects (upsertAll key [] (before ++ (a, b) :: after))) := by
    intro c hc
    refine ⟨fun hd hu => hsplit.2.2 c hu c hd rfl, fun hno => ?_⟩
    exact (List.mem_append.mp (hledger.mem_iff.mpr hc)).resolve_left hno
  rw [objects_append, objects_cons] at hnd
  have ha := (List.nodup_cons.mp (List.nodup_middle.mp hnd)).1
  rw [List.append_cons] at hnd
  have hb := (List.nodup_cons.mp (List.nodup_middle.mp hnd)).1
  simp only [List.mem_append, List.mem_cons, List.not_mem_nil, or_false, mem_objects, not_or]
    at ha hb
  have hkeys : a ∈ (upsertAll key [] (before ++ (a, b) :: after)).map Prod.fst ↔
      key a ∉ keys key before := mem_fst_upsertAll ha.1.1 ha.2.2.1
  have hvalues : b ∈ (upsertAll key [] (before ++ (a, b) :: after)).map Prod.snd ↔
      key a ∉ keys key after := mem_snd_upsertAll hb.1.1.2 hb.2.2
  refine ⟨?_, ?_⟩
  · have hsnd : a ∉ (upsertAll key [] (before ++ (a, b) :: after)).map Prod.snd := by
      intro hm
      have hm' := snd_upsertAll_subset hm
      simp only [List.map_append, List.map_cons, List.mem_append, List.mem_cons] at hm'
      tauto
    rw [hother a (by simp), mem_objects, hkeys]
    simp [hsnd]
  · have hfst : b ∉ (upsertAll key [] (before ++ (a, b) :: after)).map Prod.fst := by
      intro hm
      have hm' := fst_upsertAll_subset hm
      simp only [List.map_append, List.map_cons, List.mem_append, List.mem_cons] at hm'
      tauto
    rw [hother b (by simp), mem_objects, hvalues]
    simp [hfst]

end

end Lib
