import GrebballPlus.Lib.Upsert
import GrebballPlus.Odin.Runtime
import GrebballPlus.Odin.Strings

/-! Package `config`: `init` reads `dev.cfg` into `Table`, `free` deletes what `Table`
holds. Every `strings.clone` is logged, so that copies can be counted. -/

namespace GrebballPlus.Config

open Strings

/-- A string made by `strings.clone`. The `id` tells copies of one text apart. -/
structure Copy where
  id : ℕ
  text : Bytes
deriving DecidableEq

structure Table where
  entries : List (Copy × Copy)
  nodup : (Lib.keys Copy.text entries).Nodup

namespace Table

def empty : Table := ⟨[], List.nodup_nil⟩

/-- `Table[key] = val` keeps the stored key when its text is present already. -/
def set (t : Table) (key val : Copy) : Table :=
  ⟨Lib.upsert Copy.text t.entries key val, Lib.nodup_upsert t.nodup⟩

def find (t : Table) (k : Bytes) : Option Bytes :=
  (Lib.lookup Copy.text t.entries k).map Copy.text

def keys (t : Table) : List Bytes := Lib.keys Copy.text t.entries

def held (t : Table) : List Copy := t.entries.flatMap fun (k, v) => [k, v]

end Table

/-- What the opened file answers: its size and the bytes `os.read` stores. -/
structure File where
  size : ℕ
  data : Bytes
  fits : data.length ≤ size

/-- `make` zeroes the buffer and `os.read` fills it from the front. -/
def File.buffer (f : File) : Bytes := f.data ++ List.replicate (f.size - f.data.length) 0

def File.whole (content : Bytes) : File := ⟨content.length, content, le_rfl⟩

@[simp] theorem buffer_whole (content : Bytes) : (File.whole content).buffer = content := by
  simp [File.buffer, File.whole]

structure Store where
  table : Table
  log : List Copy

def Store.empty : Store := ⟨.empty, []⟩

def clone (log : List Copy) (s : Bytes) : Copy × List Copy :=
  let c := ⟨log.length, s⟩
  (c, log ++ [c])

def addLine (s : Store) (line : Bytes) : Except Panic Store := do
  let elems := splitN line [EQ] 2
  let (key_str, log) := clone s.log (← elemAt elems 0)
  let (val_str, log) := clone log (← elemAt elems 1)
  return ⟨s.table.set key_str val_str, log⟩

/-- `n` turns of `for line in strings.split_lines_iterator(&content)`, or fewer when
the iterator is done earlier. -/
def loop : ℕ → Bytes → Store → Except Panic Store
  | 0, _, s => .ok s
  | n + 1, content, s =>
    match splitLinesIterator content with
    | none => .ok s
    | some (line, rest) => addLine s line >>= loop n rest

/-- `init`. A turn uses up a byte of `content` or more, so its length is turns enough. -/
def init (opened : Option File) : Except Panic Store :=
  match opened with
  | none => .error .assertFailed
  | some f =>
    let content := trimRight f.buffer [CR, LF]
    loop content.length content .empty

/-- `free`: the strings it deletes, in the order of the map's entries. -/
def free (t : Table) : List Copy := t.held

end GrebballPlus.Config
