import GrebballPlus.Football.Results
import GrebballPlus.Lib.Runs
import GrebballPlus.Odin.Memory

/-! Who owns what `fetch_week` allocates. A result owns its array and three strings of each
match, and `delete_matches` gives these back. The date that is rewritten for the parser is
a string of its own too, and nothing gives that one back. -/

namespace GrebballPlus.Football

open Curl Lib Strings Strconv Time

structure OwnedMatch where
  id : Text
  awayTeam : Text
  homeTeam : Text
  awayScore : Int64
  homeScore : Int64
  startTime : Time

def OwnedMatch.zero : OwnedMatch := ⟨⟨[], none⟩, ⟨[], none⟩, ⟨[], none⟩, 0, 0, ⟨0⟩⟩

def OwnedMatch.value (m : OwnedMatch) : NFLMatch where
  id := m.id.bytes
  awayTeam := m.awayTeam.bytes
  homeTeam := m.homeTeam.bytes
  awayScore := m.awayScore
  homeScore := m.homeScore
  startTime := m.startTime

def OwnedMatch.blocks (m : OwnedMatch) : List Block :=
  m.id.blocks ++ m.awayTeam.blocks ++ m.homeTeam.blocks

/-- `[dynamic]NFLMatch`. -/
structure Matches where
  array : Option ℕ
  items : List OwnedMatch

def Matches.arrayBlock (ms : Matches) : List Block := ms.array.toList.map fun id => ⟨id, []⟩

def Matches.blocks (ms : Matches) : List Block :=
  ms.items.flatMap OwnedMatch.blocks ++ ms.arrayBlock

def readEventOn (h : Heap) (arr : Bytes) (e : EspnEvent) :
    Except Panic (Heap × Bytes × OwnedMatch) := do
  let (arr, test) := itoa arr e.id
  let (id, h) := h.clone (arr.take test.length)
  let away_comp ← elemAt (← elemAt e.competitions 0).competitors 0
  let home_comp ← elemAt (← elemAt e.competitions 0).competitors 1
  let (away_team, h) := h.clone away_comp.team.abbreviation
  let (home_team, h) := h.clone home_comp.team.abbreviation
  let (date_str, h) := h.replace (← elemAt e.competitions 0).date (ascii "Z") (ascii ":00Z") 1
  return (h, arr, {
    id := id
    awayTeam := away_team
    homeTeam := home_team
    awayScore := atoi away_comp.score
    homeScore := atoi home_comp.score
    startTime := (iso8601ToTimeUtc date_str.bytes).1 })

def resultLoopOn : Heap → ℕ → List EspnEvent → Bytes → List OwnedMatch →
    Except Panic (Heap × List OwnedMatch)
  | h, _, [], _, results => .ok (h, results)
  | h, i, e :: events, arr, results => do
    let (h, arr, m) ← readEventOn h arr e
    let _ ← elemAt results i
    resultLoopOn h (i + 1) events arr (results.set i m)

variable {ε : Type} (unmarshal : Bytes → Option ε × EspnRoot)

/-- `fetch_week`, for what it allocates of strings and arrays. The decoded events are in
the temporary arena; the two builders of the package, which `init` makes and which grow
with a response of more than 1024 bytes or a URL of more than 128, are left out. -/
def fetchWeekOn (h : Heap) (g : Globals) (t : Transfer) : Except Panic (Heap × Matches) := do
  let (response, _code) := easyPerform builderWrite t.chunks t.code g.response.reset
  let (_err, out) := unmarshal response.buf
  let (array, h) := h.make out.events.length
  let results := List.replicate out.events.length OwnedMatch.zero
  let (h, items) ← resultLoopOn h 0 out.events (List.replicate 32 0) results
  return (h, ⟨array, items⟩)

def deleteMatches (h : Heap) (ms : Matches) : Heap :=
  (ms.items.foldl (fun h m =>
    ((h.free m.id.blocks).free m.awayTeam.blocks).free m.homeTeam.blocks) h).free ms.arrayBlock

/-- The date of an event as it is handed to the parser, if that is a copy. -/
def rewritten (e : EspnEvent) : List Bytes :=
  match e.competitions with
  | [] => []
  | c :: _ => if 90 ∈ c.date then [replace c.date (ascii "Z") (ascii ":00Z") 1] else []

variable {unmarshal} {arr : Bytes} {e : EspnEvent} {m : NFLMatch} {events : List EspnEvent}

def eventsOf (unmarshal : Bytes → Option ε × EspnRoot) (t : Transfer) : List EspnEvent :=
  (unmarshal (body t.chunks)).2.events

theorem deleteMatches_eq (h : Heap) (ms : Matches) : deleteMatches h ms = h.free ms.blocks := by
  have hitems : ∀ (items : List OwnedMatch) (h : Heap), items.foldl (fun h m =>
      ((h.free m.id.blocks).free m.awayTeam.blocks).free m.homeTeam.blocks) h =
        h.free (items.flatMap OwnedMatch.blocks) := by
    intro items
    induction items with
    | nil => exact fun h => by simp [Heap.free]
    | cons m items ih =>
      intro h
      rw [List.foldl_cons, ih]
      simp [Heap.free, OwnedMatch.blocks]
  rw [deleteMatches, hitems]
  simp [Heap.free, Matches.blocks]

/-- A program that uses the package: the heap, the variables of the package and the
results it holds. -/
structure Client where
  heap : Heap
  globals : Globals
  held : List Matches

inductive Call
  | fetch (q : Query) (t : Transfer)
  | delete (i : ℕ)

inductive Client.Step (unmarshal : Bytes → Option ε × EspnRoot) : Client → Call → Client → Prop
  | fetch {c : Client} {q : Query} {t : Transfer} {h' : Heap} {ms : Matches} :
      fetchWeekOn unmarshal c.heap c.globals t = .ok (h', ms) →
      Step unmarshal c (.fetch q t) ⟨h', (fetchWeek unmarshal c.globals q t).1, c.held ++ [ms]⟩
  | delete {c : Client} {i : ℕ} (hi : i < c.held.length) :
      Step unmarshal c (.delete i)
        ⟨deleteMatches c.heap c.held[i], c.globals, c.held.eraseIdx i⟩

def Client.start : Client := ⟨.empty, init, []⟩

/-- The dates a call leaves behind. -/
def Call.dates (unmarshal : Bytes → Option ε × EspnRoot) : Call → List Bytes
  | .fetch _ t => (eventsOf unmarshal t).flatMap rewritten
  | .delete _ => []

/-- What the allocator has handed out and not got back is owned by a result that is held,
or is one of the dates `leaked`, and all of it was handed out once. -/
structure Client.Ledger (c : Client) (leaked : List Block) : Prop where
  ops : Turns 0 c.heap.ops ((c.held.flatMap Matches.blocks ++ leaked : List Block) : Multiset Block)
  nodup : ((c.held.flatMap Matches.blocks ++ leaked).map Block.id).Nodup
  old : ∀ b ∈ c.held.flatMap Matches.blocks ++ leaked, b.id < c.heap.next

theorem Client.Ledger.fetch {c : Client} {leaked dates bs : List Block} {h' : Heap} {g' : Globals}
    {ms : Matches} (hl : c.Ledger leaked) (hgrows : c.heap.Grows h' bs)
    (hperm : bs.Perm (ms.blocks ++ dates)) :
    (⟨h', g', c.held ++ [ms]⟩ : Client).Ledger (leaked ++ dates) := by
  have hall : (c.held.flatMap Matches.blocks ++ leaked ++ bs).Perm
      ((c.held ++ [ms]).flatMap Matches.blocks ++ (leaked ++ dates)) := by
    rw [List.flatMap_append, List.flatMap_singleton, List.append_assoc, List.append_assoc]
    refine List.Perm.append_left _ ((hperm.append_left leaked).trans ?_)
    rw [← List.append_assoc, ← List.append_assoc]
    exact List.perm_append_comm.append_right dates
  refine ⟨?_, ?_, fun b hb => ?_⟩
  · rw [hgrows.ops, ← Multiset.coe_eq_coe.mpr hall, ← Multiset.coe_add]
    have hnew := (Turns.allocs bs).frame
      ((c.held.flatMap Matches.blocks ++ leaked : List Block) : Multiset Block)
    rw [zero_add, add_comm] at hnew
    exact hl.ops.append hnew
  · refine (hall.map Block.id).nodup_iff.mp ?_
    rw [List.map_append, hgrows.ids]
    refine List.nodup_append.mpr ⟨hl.nodup, List.nodup_range', fun i hi j hj hij => ?_⟩
    obtain ⟨b, hb, rfl⟩ := List.mem_map.mp hi
    have hlt := hl.old b hb
    have hge := (List.mem_range'_1.mp hj).1
    omega
  · have hnext := hgrows.next
    rcases List.mem_append.mp (hall.mem_iff.mpr hb) with hb | hb
    · have hlt := hl.old b hb
      simp only
      omega
    · have hid : b.id ∈ bs.map Block.id := List.mem_map_of_mem hb
      rw [hgrows.ids] at hid
      have hlt := (List.mem_range'_1.mp hid).2
      simp only
      omega

theorem Client.Ledger.delete {c : Client} {leaked : List Block} (hl : c.Ledger leaked) {i : ℕ}
    (hi : i < c.held.length) : (⟨deleteMatches c.heap c.held[i], c.globals,
      c.held.eraseIdx i⟩ : Client).Ledger leaked := by
  have hall : (c.held.flatMap Matches.blocks ++ leaked).Perm
      (c.held[i].blocks ++ ((c.held.eraseIdx i).flatMap Matches.blocks ++ leaked)) := by
    rw [← List.append_assoc, ← List.flatMap_cons]
    exact ((List.getElem_cons_eraseIdx_perm hi).flatMap_right _).symm.append_right leaked
  refine ⟨?_, ?_, fun b hb => ?_⟩
  · have hfree := (Turns.frees c.held[i].blocks).frame
      (((c.held.eraseIdx i).flatMap Matches.blocks ++ leaked : List Block) : Multiset Block)
    rw [Multiset.coe_add, ← Multiset.coe_eq_coe.mpr hall, zero_add] at hfree
    rw [deleteMatches_eq]
    exact hl.ops.append hfree
  · have hnd := (hall.map Block.id).nodup_iff.mp hl.nodup
    rw [List.map_append] at hnd
    exact (List.nodup_append.mp hnd).2.1
  · rw [deleteMatches_eq]
    exact hl.old b (hall.mem_iff.mpr (List.mem_append_right _ hb))

end GrebballPlus.Football
