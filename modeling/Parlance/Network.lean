import Parlance.Heap

namespace Parlance

namespace Network

-- A server waits for clients at an address.
structure Listener where
  endpoint : Endpoint
  server : Nat

end Network

open Network

-- How the channels of a program find each other. A network is asked with the servers that wait
-- and with an address. It need not give the same answer twice, so it is also told how often the
-- program has asked for anything before.
structure Network where
  -- The server that a client reaches at an address, or why it reaches none.
  connect : Nat → List Listener → Endpoint → Except String Nat
  -- Why a server cannot wait at an address, if it cannot.
  refusal? : Nat → List Listener → Endpoint → Option String
  -- Clients reach servers that wait. Those of other programs are not there.
  reaches : ∀ {turn listeners endpoint server},
    connect turn listeners endpoint = .ok server → ∃ l ∈ listeners, l.server = server
  -- No machine has the empty name.
  unreached : ∀ turn listeners port, ∃ reason, connect turn listeners ⟨"", port⟩ = .error reason
  unbound : ∀ turn listeners port, ∃ reason, refusal? turn listeners ⟨"", port⟩ = some reason
  -- A reason takes one line.
  connect_oneLine : ∀ {turn listeners endpoint reason},
    connect turn listeners endpoint = .error reason → '\n' ∉ reason.toList
  refusal?_oneLine : ∀ {turn listeners endpoint reason},
    refusal? turn listeners endpoint = some reason → '\n' ∉ reason.toList

end Parlance
