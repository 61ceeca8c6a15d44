import GrebballPlus.Gateway.Connection
import GrebballPlus.Gateway.Duration

/-! How many messages a client can get: one for the Hello, and at most one in each pass
that does not send a heartbeat. -/

namespace GrebballPlus.Gateway

open Curl Lib

variable {σ ε : Type} {net : Socket σ} {unmarshal : Bytes → Option ε × HelloEvt}
  {c : Connection σ} {ms : List Move} {socket : σ} {interval : UInt32} {t₀ : ℕ} {loop : Loop}
  {console : Console}

end GrebballPlus.Gateway
