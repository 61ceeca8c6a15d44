import GrebballPlus.Config.Format
import GrebballPlus.Config.ShortRead
import GrebballPlus.Curl

/-! `discord_gateway` of package `main`: the bot token of the config goes into a header,
and the builder it was written to is used again for the response. From the file to the
request, the header carries the token of the last line that sets it, or as much of it as
was read. -/

namespace GrebballPlus.Gateway

open Curl Config

structure SessionStart where
  maxConcurrency : Int64
  remaining : Int64
  resetAfter : Int64
  total : Int64

structure GatewayRes where
  url : Bytes
  sessionStartLimit : SessionStart
  shards : Int64

def BOT_TOKEN : Bytes := ascii "DISCORD_TOKEN"

/-- `Table[k]`, which is empty where the key is absent. -/
def lookupTable (table : Table) (k : Bytes) : Bytes := (table.find k).getD []

/-- What `discord_gateway` does: the headers of its request, and what it prints of the
transfer and of the decoded response. -/
structure GatewayCall where
  headers : List Bytes
  code : CURLcode
  url : Bytes

variable {ε : Type} (unmarshal : Bytes → Option ε × GatewayRes)

/-- `slist_append` copies the C string. The decode error is dropped. -/
def discordGateway (table : Table) (t : Transfer) : GatewayCall :=
  let token := lookupTable table BOT_TOKEN
  let sb := Builder.initCap 1024
  let sb := (sb.writeBytes (ascii "Authorization: Bot ")).writeBytes token
  let (header, sb) := sb.toCstring
  let headers := [header]
  let sb := sb.reset
  let (sb, code) := easyPerform builderWrite t.chunks t.code sb
  let (_err, gate_res) := unmarshal sb.buf
  ⟨headers, code, gate_res.url⟩

/-- The header holds the token up to its first NUL, and nothing of it is left in the
response. -/
theorem discordGateway_eq (table : Table) (t : Transfer) :
    discordGateway unmarshal table t =
      ⟨[ascii "Authorization: Bot " ++ (lookupTable table BOT_TOKEN).takeWhile (· ≠ NUL)],
        t.code, (unmarshal (body t.chunks)).2.url⟩ := by
  have hprefix : NUL ∉ ascii "Authorization: Bot " := by decide
  have htoken : (ascii "Authorization: Bot " ++ lookupTable table BOT_TOKEN).takeWhile (· ≠ NUL) =
      ascii "Authorization: Bot " ++ (lookupTable table BOT_TOKEN).takeWhile (· ≠ NUL) :=
    List.takeWhile_append_of_pos (forall_ne_of_not_mem hprefix)
  have hperform := easyPerform_spec builderWrite_appends t.chunks t.code
  simp only [discordGateway, Builder.toCstring_fst, Builder.buf_writeBytes, Builder.buf_initCap,
    Builder.buf_reset, List.nil_append, htoken, (hperform _).1, (hperform _).2]

/-- From the file to the header: the token is that of the last entry that sets it, up to
its first NUL if it holds one. -/
theorem discordGateway_init {cr tail : Bytes} (hcr : cr = [] ∨ cr = [CR])
    (htail : ∀ b ∈ tail, b ∈ [CR, LF]) (es : List Entry) (t : Transfer) :
    ∃ s, Config.init (some (.whole (Config.body cr es ++ tail))) = .ok s ∧
      (discordGateway unmarshal s.table t).headers = [ascii "Authorization: Bot " ++
        ((((es.filter fun e => e.key = BOT_TOKEN).getLast?).map Entry.value).getD []).takeWhile
          (· ≠ NUL)] := by
  obtain ⟨s, hs, -, hfind⟩ := init_body hcr htail es
  refine ⟨s, hs, ?_⟩
  rw [discordGateway_eq, lookupTable, hfind]

def noResponse : Bytes → Option Unit × GatewayRes := fun _ => (none, ⟨[], ⟨0, 0, 0, 0⟩, 0⟩)

def twoTokens : List Entry :=
  [⟨BOT_TOKEN, ascii "old", by decide, by decide, by decide, by decide⟩,
    ⟨BOT_TOKEN, ascii "new", by decide, by decide, by decide, by decide⟩]

theorem discordGateway_init_two_tokens :
    ∃ s, Config.init (some (.whole (Config.body [] twoTokens ++ []))) = .ok s ∧
      (discordGateway noResponse s.table ⟨[], .OK⟩).headers =
        [ascii "Authorization: Bot new"] := by
  have htail : ∀ b ∈ ([] : Bytes), b ∈ [CR, LF] := fun b hb => absurd hb List.not_mem_nil
  obtain ⟨s, hs, hheaders⟩ :=
    discordGateway_init noResponse (Or.inl rfl) htail twoTokens ⟨[], .OK⟩
  exact ⟨s, hs, hheaders⟩

/-- A config that is not read to its end stops the program unless it was cut behind the `=`
of a line, and then that line's value carries zeros; where it is the token the request goes
out all the same, with the part of it that was read. -/
theorem short_read_header {f : File} (hshort : f.data.length < f.size) (t : Transfer) :
    (EQ ∉ openLine f.data → Config.init (some f) = .error .indexOutOfRange) ∧
      ∀ s, Config.init (some f) = .ok s → EQ ∈ openLine f.data ∧
        s.table.find (keyOf (openLine f.data)) = some (valueOf (openLine f.data) ++ f.unread) ∧
        (keyOf (openLine f.data) = BOT_TOKEN →
          (discordGateway unmarshal s.table t).headers = [ascii "Authorization: Bot " ++
            (valueOf (openLine f.data)).takeWhile (· ≠ NUL)]) := by
  obtain ⟨hopen, hok⟩ := init_short hshort
  refine ⟨hopen, fun s hs => ?_⟩
  obtain ⟨heq, hfind⟩ := hok s hs
  refine ⟨heq, hfind, fun hkey => ?_⟩
  obtain ⟨k, hk⟩ : ∃ k, f.size - f.data.length = k + 1 :=
    Nat.exists_eq_succ_of_ne_zero (by omega)
  have hunread : f.unread = NUL :: List.replicate k 0 := by
    rw [File.unread, hk, List.replicate_succ]
    rfl
  rw [hkey, hunread] at hfind
  rw [discordGateway_eq, lookupTable, hfind, Option.getD_some, takeWhile_append_self]

def cutFile : File := ⟨20, ascii "DISCORD_TOKEN=abcd", by decide⟩

theorem short_read_header_cut :
    ∃ s, Config.init (some cutFile) = .ok s ∧
      (discordGateway noResponse s.table ⟨[], .OK⟩).headers =
        [ascii "Authorization: Bot abcd"] := by
  have hs : Config.init (some cutFile) = .ok _ := rfl
  have hshort : cutFile.data.length < cutFile.size := by decide
  obtain ⟨-, -, hheader⟩ := (short_read_header noResponse hshort ⟨[], .OK⟩).2 _ hs
  exact ⟨_, hs, hheader (by decide)⟩

end GrebballPlus.Gateway
