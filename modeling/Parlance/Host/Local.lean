import Parlance.Decimal.Layout
import Parlance.Heap.Display
import Parlance.Host
import Parlance.Text.Quoted

namespace Parlance

namespace Network

-- A number of an address: up to three digits, at most 255.
def isOctet (s : String) : Bool :=
  let cs := s.toList
  !cs.isEmpty && cs.length ≤ 3 && cs.all Char.isDigit &&
    cs.foldl (fun n c => 10 * n + (c.toNat - '0'.toNat)) 0 ≤ 255 &&
    (cs.length = 1 || cs.head? != some '0')

-- Addresses are four numbers. Any other host is a name, and no names are known except the
-- one of the machine itself.
def isKnown (host : String) : Bool :=
  let parts := host.splitOn "."
  host == "localhost" || (parts.length == 4 && parts.all isOctet)

theorem isKnown_empty : isKnown "" = false := by
  have hparts : "".splitOn "." = [""] := by
    rw [String.splitOn, String.splitOnAux]
    decide +kernel
  rw [isKnown, hparts]
  decide

def lookupFailure : String :=
  "failed to lookup address information: Temporary failure in name resolution"

-- A server that asks for this port is given a free one, which no client knows.
def anyPort : UInt16 := 0

-- The server that waits at an address.
def waiting? (listeners : List Listener) (endpoint : Endpoint) : Option Listener :=
  listeners.find? fun l => l.endpoint = endpoint && endpoint.port != anyPort

-- Networks that never change: `answer` says who answers at a known address, and two servers
-- cannot wait at the same one.
def steady (answer : List Listener → Endpoint → Except String Nat)
    (reaches : ∀ {listeners endpoint server}, answer listeners endpoint = .ok server →
      ∃ l ∈ listeners, l.server = server)
    (oneLine : ∀ {listeners endpoint reason}, answer listeners endpoint = .error reason →
      '\n' ∉ reason.toList) : Network where
  connect _ listeners endpoint :=
    if isKnown endpoint.host then answer listeners endpoint else .error lookupFailure
  refusal? _ listeners endpoint :=
    if !isKnown endpoint.host then some lookupFailure
    else if (waiting? listeners endpoint).isSome then some "Address already in use (os error 98)"
    else none
  reaches h := by
    split at h
    · exact reaches h
    · cases h
  unreached _ _ _ := ⟨lookupFailure, by simp [isKnown_empty]⟩
  unbound _ _ _ := ⟨lookupFailure, by simp [isKnown_empty]⟩
  connect_oneLine h := by
    split at h
    · exact oneLine h
    · cases h
      decide
  refusal?_oneLine h := by
    split at h
    · cases h
      decide
    · split at h
      · cases h
        decide
      · cases h

-- The network of a machine by itself, on which clients reach the servers that wait there.
def loopback : Network :=
  steady
    (fun listeners endpoint =>
      match waiting? listeners endpoint with
      | some l => .ok l.server
      | none => .error "Connection refused (os error 111)")
    (fun h => by
      split at h
      · next l hl =>
        cases h
        exact ⟨l, List.mem_of_find?_eq_some hl, rfl⟩
      · cases h)
    (fun h => by
      split at h
      · cases h
      · cases h
        decide)

-- No network at all. Servers can wait for clients, but none will come.
def isolated : Network :=
  steady (fun _ _ => .error "Network is unreachable (os error 101)") (fun h => by cases h)
    (fun h => by
      cases h
      decide)

end Network

namespace Draws

-- A number whose bits depend on all bits of another one.
def scramble (state : UInt64) : UInt64 :=
  let z := (state ^^^ (state >>> 30)) * 0xBF58476D1CE4E5B9
  let z := (z ^^^ (z >>> 27)) * 0x94D049BB133111EB
  z ^^^ (z >>> 31)

def bits (seed : UInt64) (turn : Nat) : UInt64 :=
  scramble (seed + turn.toUInt64 * 0x9E3779B97F4A7C15)

theorem between_mem {low high : Int64} (h : low ≤ high) (n : Nat) :
    let drawn := Int64.ofInt (low.toInt + n % (high.toInt - low.toInt + 1))
    low ≤ drawn ∧ drawn ≤ high := by
  intro drawn
  have hle : low.toInt ≤ high.toInt := Int64.le_iff_toInt_le.mp h
  have hlow := low.le_toInt
  have hhigh := high.toInt_lt
  have hnonneg := Int.emod_nonneg n (b := high.toInt - low.toInt + 1) (by omega)
  have hlt := Int.emod_lt_of_pos n (b := high.toInt - low.toInt + 1) (by omega)
  have hdrawn : drawn.toInt = low.toInt + n % (high.toInt - low.toInt + 1) :=
    Int64.toInt_ofInt_of_le (by omega) (by omega)
  constructor <;> rw [Int64.le_iff_toInt_le] <;> omega

-- Random numbers that come from a seed.
def ofSeed (seed : UInt64) : Draws where
  fraction turn :=
    let x := (bits seed turn >>> 11).toFloat / 9007199254740992.0
    if h : 0.0 ≤ x ∧ x < 1.0 then ⟨x, h⟩ else ⟨0.0, by decide⟩
  between turn _ _ h := ⟨_, between_mem h (bits seed turn).toNat⟩

end Draws

namespace JsonValue

mutual

-- JSON without any space.
def compact : JsonValue → String
  | null => "null"
  | bool b => if b then "true" else "false"
  | int n => toString n
  | float x => Decimal.json x
  | str s => Text.json s
  | array items => "[" ++ ",".intercalate (compactItems items) ++ "]"
  | object entries => "\x7b" ++ ",".intercalate (compactEntries entries) ++ "\x7d"

def compactItems : List JsonValue → List String
  | [] => []
  | v :: rest => v.compact :: compactItems rest

def compactEntries : List (String × JsonValue) → List String
  | [] => []
  | (key, v) :: rest => (Text.json key ++ ":" ++ v.compact) :: compactEntries rest

end

end JsonValue

-- The JSON text of a value, for who wants to see it from outside.
def Heap.json (h : Heap) (v : Value) : String :=
  (h.toJson v).compact

namespace Host

-- Machines with a network of their own, or without one.
def loopback : Host :=
  ⟨.ofSeed 0, .loopback, JsonValue.compact⟩

def isolated : Host :=
  ⟨.ofSeed 0, .isolated, JsonValue.compact⟩

end Host

end Parlance
