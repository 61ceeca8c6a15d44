import GrebballPlus.Config.Grammar
import Mathlib.Data.List.Count

/-! Who frees the copies `init` makes. `free` deletes what `Table` holds, so the copies
of an `init` are all deleted when each of them is held. An assignment to a key that is
present drops the new key copy and the old value copy. -/

namespace GrebballPlus.Config

open Strings

/-- After every turn of the loop each copy made so far is held once, and the copies of
the whole `init` are the strings the following `free` deletes. -/
def Conserves (content : Bytes) : Prop :=
  (∀ n s, loop n (trimRight content [CR, LF]) .empty = .ok s → s.table.held.Perm s.log) ∧
  ∀ s, init (some (.whole content)) = .ok s → (free s.table).Perm s.log

theorem ids_pairs (n : ℕ) (ls : List Bytes) :
    ((pairs n ls).flatMap fun (k, v) => [k, v]).map Copy.id = List.range' n (2 * ls.length) := by
  induction ls generalizing n with
  | nil => rfl
  | cons l ls ih =>
    rw [List.length_cons, Nat.mul_succ, List.range'_succ, List.range'_succ, ← ih (n + 2)]
    rfl

theorem init_log_nodup {content : Bytes} {s : Store}
    (h : init (some (.whole content)) = .ok s) : s.log.Nodup := by
  obtain ⟨-, -, hlog⟩ := init_eq_ok h
  apply List.Nodup.of_map Copy.id
  rw [hlog, ids_pairs]
  exact List.nodup_range'

theorem conserves_of_nodup {content : Bytes} (h : ∀ l ∈ lines content, EQ ∈ l)
    (hkeys : ((lines content).map keyOf).Nodup) : Conserves content := by
  have hheld : ∀ ls : List Bytes, (ls.map keyOf).Nodup → (∀ l ∈ ls, EQ ∈ l) → ∀ s,
      ls.foldlM addLine .empty = .ok s → s.table.held = s.log := by
    intro ls hnd hls s hs
    obtain ⟨s', hs', htab, hlog⟩ := foldlM_addLine_ok .empty hls
    obtain rfl : s' = s := Except.ok.inj (hs'.symm.trans hs)
    have hent : s'.table.entries = pairs 0 ls := by
      rw [htab]
      apply Lib.upsertAll_of_nodup
      rwa [keys_pairs]
    unfold Table.held
    rw [hent, hlog]
    rfl
  refine ⟨fun n s hs => ?_, fun s hs => ?_⟩
  · rw [loop_eq_foldlM _ _ _ (closed_trimRight content), ← lines_eq] at hs
    refine List.Perm.of_eq (hheld _ ?_ (fun l hl => h l (List.mem_of_mem_take hl)) s hs)
    rw [List.map_take]
    exact hkeys.sublist (List.take_sublist _ _)
  · rw [init_eq_foldlM] at hs
    exact List.Perm.of_eq (hheld _ hkeys h s hs)

/-- The copies `init` lets go of: keys that were there already, and values replaced. -/
def lost (content : Bytes) : List Copy :=
  Lib.objects (Lib.displacedAll Copy.text [] (pairs 0 (lines content)))

/-- The ledger of an `init`: a copy is deleted by `free` or was lost, and not both. -/
theorem free_lost_perm {content : Bytes} {s : Store}
    (h : init (some (.whole content)) = .ok s) : (free s.table ++ lost content).Perm s.log := by
  obtain ⟨-, htab, hlog⟩ := init_eq_ok h
  have hledger := Lib.objects_upsertAll_perm Copy.text [] (pairs 0 (lines content))
  rw [← htab, Lib.objects_nil, List.nil_append] at hledger
  rw [hlog]
  exact hledger

theorem nodup_lost {content : Bytes} {s : Store} (h : init (some (.whole content)) = .ok s) :
    (lost content).Nodup :=
  (List.nodup_append.mp ((free_lost_perm h).nodup_iff.mpr (init_log_nodup h))).2.1

theorem pairs_append (n : ℕ) (ls ls' : List Bytes) :
    pairs n (ls ++ ls') = pairs n ls ++ pairs (n + 2 * ls.length) ls' := by
  induction ls generalizing n with
  | nil => rfl
  | cons l ls ih =>
    have hnext : n + 2 + 2 * ls.length = n + 2 * (ls.length + 1) := by omega
    rw [List.cons_append, pairs, pairs, ih, List.cons_append, List.length_cons, hnext]

theorem mem_lost {content l : Bytes} {before after : List Bytes}
    (h : lines content = before ++ l :: after) :
    (⟨2 * before.length, keyOf l⟩ ∈ lost content ↔ keyOf l ∈ before.map keyOf) ∧
      (⟨2 * before.length + 1, valueOf l⟩ ∈ lost content ↔ keyOf l ∈ after.map keyOf) := by
  have hpairs : pairs 0 (lines content) = pairs 0 before ++
      (⟨2 * before.length, keyOf l⟩, ⟨2 * before.length + 1, valueOf l⟩) ::
        pairs (2 * before.length + 2) after := by
    rw [h, pairs_append, Nat.zero_add]
    rfl
  have hnd : (Lib.objects (pairs 0 (lines content))).Nodup := by
    apply List.Nodup.of_map Copy.id
    rw [Lib.objects, ids_pairs]
    exact List.nodup_range'
  rw [hpairs] at hnd
  have hmem := Lib.mem_displacedAll Copy.text hnd
  rw [keys_pairs, keys_pairs, ← hpairs] at hmem
  exact hmem

theorem line_of_mem_pairs {n : ℕ} {ls : List Bytes} {c : Copy} (hc : c ∈ Lib.objects (pairs n ls)) :
    ∃ before l after, ls = before ++ l :: after ∧
      (c = ⟨n + 2 * before.length, keyOf l⟩ ∨ c = ⟨n + 2 * before.length + 1, valueOf l⟩) := by
  induction ls generalizing n with
  | nil => cases hc
  | cons l ls ih =>
    rw [pairs, Lib.objects_cons, List.mem_cons, List.mem_cons] at hc
    rcases hc with rfl | rfl | hc
    · exact ⟨[], l, ls, rfl, Or.inl rfl⟩
    · exact ⟨[], l, ls, rfl, Or.inr rfl⟩
    · obtain ⟨before, l', after, rfl, hid⟩ := ih hc
      have hnext : n + 2 + 2 * before.length = n + 2 * (before.length + 1) := by omega
      rw [hnext] at hid
      exact ⟨l :: before, l', after, rfl, hid⟩

theorem line_of_mem_lost {content : Bytes} {s : Store}
    (h : init (some (.whole content)) = .ok s) {c : Copy} (hc : c ∈ lost content) :
    ∃ before l after, lines content = before ++ l :: after ∧
      (c = ⟨2 * before.length, keyOf l⟩ ∨ c = ⟨2 * before.length + 1, valueOf l⟩) := by
  have hlog := (free_lost_perm h).mem_iff.mp (List.mem_append_right _ hc)
  rw [(init_eq_ok h).2.2] at hlog
  obtain ⟨before, l, after, hlines, hcopy⟩ := line_of_mem_pairs hlog
  rw [Nat.zero_add] at hcopy
  exact ⟨before, l, after, hlines, hcopy⟩

theorem lost_eq_nil_iff (content : Bytes) :
    lost content = [] ↔ ((lines content).map keyOf).Nodup := by
  rw [lost, Lib.objects_eq_nil, Lib.displacedAll_eq_nil, keys_pairs]
  exact and_iff_left fun k _ => List.not_mem_nil

theorem nodup_of_conserves {content : Bytes} (h : ∀ l ∈ lines content, EQ ∈ l)
    (hcons : Conserves content) : ((lines content).map keyOf).Nodup := by
  obtain ⟨s, hs, -⟩ := init_ok content h
  have hall := (hcons.2 s hs).length_eq
  have hledger := (free_lost_perm hs).length_eq
  rw [List.length_append] at hledger
  rw [← lost_eq_nil_iff]
  exact List.eq_nil_of_length_eq_zero (by omega)

/-- `free` gives back exactly the copies of `init` if and only if no key repeats. -/
theorem init_free_conserve_iff (content : Bytes) (h : ∀ l ∈ lines content, EQ ∈ l) :
    Conserves content ↔ ((lines content).map keyOf).Nodup :=
  ⟨nodup_of_conserves h, conserves_of_nodup h⟩

theorem init_free_conserve_two_keys :
    Conserves (ascii "URL=a\nTOKEN=b") ↔
      ((lines (ascii "URL=a\nTOKEN=b")).map keyOf).Nodup :=
  init_free_conserve_iff (ascii "URL=a\nTOKEN=b") (by decide)

/-- The second line of `T=1`, `T=2` leaks its key copy and the value `1`. -/
theorem repeated_key_leaks :
    (∀ l ∈ lines (ascii "T=1\nT=2"), EQ ∈ l) ∧
    (∃ s, init (some (.whole (ascii "T=1\nT=2"))) = .ok s ∧
      s.log.map Copy.text = [ascii "T", ascii "1", ascii "T", ascii "2"] ∧
      (free s.table).map Copy.text = [ascii "T", ascii "2"]) ∧
    ¬ Conserves (ascii "T=1\nT=2") := by
  refine ⟨by decide, ⟨_, rfl, by decide, by decide⟩, fun h => ?_⟩
  exact absurd (nodup_of_conserves (by decide) h) (by decide)

end GrebballPlus.Config
