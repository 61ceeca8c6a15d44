import GrebballPlus.Odin.Strings

/-! Package `curl`: the result codes, the write callback and what libcurl does with it
in one transfer, and what goes through a web socket. -/

namespace GrebballPlus.Curl

inductive CURLcode
  | OK | UNSUPPORTED_PROTOCOL | FAILED_INIT | URL_MALFORMAT | NOT_BUILT_IN
  | COULDNT_RESOLVE_PROXY | COULDNT_RESOLVE_HOST | COULDNT_CONNECT | WEIRD_SERVER_REPLY
  | REMOTE_ACCESS_DENIED | FTP_ACCEPT_FAILED | FTP_WEIRD_PASS_REPLY | FTP_ACCEPT_TIMEOUT
  | FTP_WEIRD_PASV_REPLY | FTP_WEIRD_227_FORMAT | FTP_CANT_GET_HOST | HTTP2
  | FTP_COULDNT_SET_TYPE | PARTIAL_FILE | FTP_COULDNT_RETR_FILE | OBSOLETE20 | QUOTE_ERROR
  | HTTP_RETURNED_ERROR | WRITE_ERROR | OBSOLETE24 | UPLOAD_FAILED | READ_ERROR | OUT_OF_MEMORY
  | OPERATION_TIMEDOUT | OBSOLETE29 | FTP_PORT_FAILED | FTP_COULDNT_USE_REST | OBSOLETE32
  | RANGE_ERROR | OBSOLETE34 | SSL_CONNECT_ERROR | BAD_DOWNLOAD_RESUME | FILE_COULDNT_READ_FILE
  | LDAP_CANNOT_BIND | LDAP_SEARCH_FAILED | OBSOLETE40 | OBSOLETE41 | ABORTED_BY_CALLBACK
  | BAD_FUNCTION_ARGUMENT | OBSOLETE44 | INTERFACE_FAILED | OBSOLETE46 | TOO_MANY_REDIRECTS
  | UNKNOWN_OPTION | SETOPT_OPTION_SYNTAX | OBSOLETE50 | OBSOLETE51 | GOT_NOTHING
  | SSL_ENGINE_NOTFOUND | SSL_ENGINE_SETFAILED | SEND_ERROR | RECV_ERROR | OBSOLETE57
  | SSL_CERTPROBLEM | SSL_CIPHER | PEER_FAILED_VERIFICATION | BAD_CONTENT_ENCODING | OBSOLETE62
  | FILESIZE_EXCEEDED | USE_SSL_FAILED | SEND_FAIL_REWIND | SSL_ENGINE_INITFAILED
  | LOGIN_DENIED | TFTP_NOTFOUND | TFTP_PERM | REMOTE_DISK_FULL | TFTP_ILLEGAL | TFTP_UNKNOWNID
  | REMOTE_FILE_EXISTS | TFTP_NOSUCHUSER | OBSOLETE75 | OBSOLETE76 | SSL_CACERT_BADFILE
  | REMOTE_FILE_NOT_FOUND | SSH | SSL_SHUTDOWN_FAILED | AGAIN | SSL_CRL_BADFILE
  | SSL_ISSUER_ERROR | FTP_PRET_FAILED | RTSP_CSEQ_ERROR | RTSP_SESSION_ERROR
  | FTP_BAD_FILE_LIST | CHUNK_FAILED | NO_CONNECTION_AVAILABLE | SSL_PINNEDPUBKEYNOTMATCH
  | SSL_INVALIDCERTSTATUS | HTTP2_STREAM | RECURSIVE_API_CALL | AUTH_ERROR | HTTP3
  | QUIC_CONNECT_ERROR | PROXY | SSL_CLIENTCERT | UNRECOVERABLE_POLL | TOO_LARGE | ECH_REQUIRED
  | LAST
deriving DecidableEq

structure WsFrame where
  age : Int32
  flags : Int32
  offset : Int64
  bytesleft : Int64
  len : UInt64
deriving DecidableEq

def CURLWS_TEXT : UInt32 := 1

def CURLWS_CLOSE : UInt32 := 8

/-- What `ws_recv` comes back with for a buffer of 256 bytes. A call that fails leaves
the buffer as it was and `meta` nil. -/
structure WsRecv where
  code : CURLcode
  frame : Option WsFrame
  data : Bytes
  fits : data.length ≤ 256
  failed : code ≠ .OK → frame = none ∧ data = []

theorem WsRecv.code_of_frame {r : WsRecv} {frame : WsFrame} (h : r.frame = some frame) :
    r.code = .OK := by
  by_contra hfailed
  rw [(r.failed hfailed).1] at h
  cases h

structure WsSend where
  data : Bytes
  fragSize : Int64
  flags : UInt32
deriving DecidableEq

/-- `builder_write`: appends `len` bytes and reports `size * len` of them. -/
def builderWrite (data : Bytes) (size len : UInt64) (dst : Builder) : Builder × UInt64 :=
  (dst.writeBytes (data.take len.toNat), size * len)

/-- A piece of a body as libcurl hands it over: its length is a `size_t`. -/
structure Chunk where
  data : Bytes
  fits : data.length < UInt64.size

structure Transfer where
  chunks : List Chunk
  code : CURLcode

def body (chunks : List Chunk) : Bytes := (chunks.map Chunk.data).flatten

/-- The URL set with `CURLOPT_URL`, of which libcurl keeps a copy. -/
structure Handle where
  url : Bytes

/-- `easy_perform` with a write callback and what it writes to: libcurl passes size 1,
and ends the transfer when a call reports less than it was given. -/
def easyPerform {σ : Type} (write : Bytes → UInt64 → UInt64 → σ → σ × UInt64) :
    List Chunk → CURLcode → σ → σ × CURLcode
  | [], code, dst => (dst, code)
  | c :: cs, code, dst =>
    let (dst, n) := write c.data 1 (UInt64.ofNat c.data.length) dst
    if n = UInt64.ofNat c.data.length then easyPerform write cs code dst
    else (dst, .WRITE_ERROR)

/-- The callback appends each piece, seen through `view`, and reports all of it. -/
def Appends {σ : Type} (write : Bytes → UInt64 → UInt64 → σ → σ × UInt64) (view : σ → Bytes) :
    Prop :=
  ∀ (c : Chunk) (dst : σ),
    view (write c.data 1 (UInt64.ofNat c.data.length) dst).1 = view dst ++ c.data ∧
      (write c.data 1 (UInt64.ofNat c.data.length) dst).2 = UInt64.ofNat c.data.length

theorem toNat_length (c : Chunk) : (UInt64.ofNat c.data.length).toNat = c.data.length :=
  UInt64.toNat_ofNat_of_lt' c.fits

theorem builderWrite_appends : Appends builderWrite Builder.buf := by
  intro c dst
  simp only [builderWrite, toNat_length, List.take_length, Builder.buf_writeBytes, UInt64.one_mul,
    and_self]

theorem easyPerform_spec {σ : Type} {write : Bytes → UInt64 → UInt64 → σ → σ × UInt64}
    {view : σ → Bytes} (hw : Appends write view) (cs : List Chunk) (code : CURLcode) (dst : σ) :
    view (easyPerform write cs code dst).1 = view dst ++ body cs ∧
      (easyPerform write cs code dst).2 = code := by
  induction cs generalizing dst with
  | nil => simp [easyPerform, body]
  | cons c cs ih =>
    obtain ⟨hview, hn⟩ := hw c dst
    obtain ⟨hbuf, hcode⟩ := ih (write c.data 1 (UInt64.ofNat c.data.length) dst).1
    simp only [easyPerform, hn, if_true]
    refine ⟨?_, hcode⟩
    rw [hbuf, hview, List.append_assoc]
    simp [body]

end GrebballPlus.Curl
