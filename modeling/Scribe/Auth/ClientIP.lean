import Scribe.Data.GoText

/-! The address of a client behind proxies.

Every proxy on the way appends the address of its peer to the forwarded addresses,
to the last header line or on a line of its own. The server walks the first line from
its end past the proxies it trusts. The client chooses the lines that reach the first
proxy, so its own address is found whatever it sent only where the first proxy has
appended it to the first line.
-/

set_option autoImplicit false

namespace Scribe.Auth

open List

def isBracket (c : Char) : Bool := c = '[' || c = ']'

/-- `strings.Trim(text, "[]")`. -/
def trimBrackets (text : String) : String := String.ofList (Text.trimChars isBracket text.toList)

def splitHost (hostport : String) : Option String :=
  let pieces := Go.split hostport ':'
  let before := String.intercalate ":" pieces.dropLast
  let port := pieces.getLast?.getD ""
  if pieces.length < 2 then none
  else if '[' ∈ port.toList ∨ ']' ∈ port.toList then none
  else match before.toList with
    | '[' :: inside =>
      if inside.getLast? = some ']' ∧ '[' ∉ inside ∧ ']' ∉ inside.dropLast then
        some (String.ofList inside.dropLast)
      else none
    | host => if ':' ∈ host ∨ '[' ∈ host ∨ ']' ∈ host then none else some before

def remoteHost (remoteAddr : String) : String :=
  (splitHost (Go.trimSpace remoteAddr)).getD (Go.trimSpace remoteAddr)

def isOctet (field : String) : Bool :=
  field.toList.all Char.isDigit && field.toList.foldl (fun value c =>
    value * 10 + (c.toNat - '0'.toNat)) 0 ≤ 255 &&
    (field.toList.length = 1 || field.toList.head?.any (· ≠ '0'))

def parseIPv4 (text : String) : Option String :=
  if (Go.split text '.').length = 4 ∧ (Go.split text '.').all isOctet then some text else none

/-- `net.ParseIP` and the text of the address, over the address syntax with colons. -/
def parseIP (parseIPv6 : String → Option String) (text : String) : Option String :=
  match text.toList.find? fun c => c = '.' || c = ':' || c = '%' with
  | some '.' => parseIPv4 text
  | some ':' => parseIPv6 text
  | _ => none

structure Request where
  remoteAddr : String
  forwardedFor : List String
  realIP : List String

/-- `Header.Get`: the first line of a header. -/
def headerGet (lines : List String) : String := lines.head?.getD ""

section
-- The syntax of the addresses, which gives their canonical text, and the peers that are trusted.
variable (parse : String → Option String) (trusted : String → Bool)

/-- The canonical text of an entry that is an address of no trusted proxy. -/
def untrusted (entry : String) : Option String :=
  let candidate := trimBrackets (Go.trimSpace entry)
  (parse candidate).bind fun ip => if trusted candidate then none else some ip

def closest (line : String) : Option String :=
  (Go.split line ',').reverse.findSome? (untrusted parse trusted)

def clientIPFromTrust (request : Request) : String :=
  let remote := remoteHost request.remoteAddr
  if trusted remote = false then remote
  else match closest parse trusted (headerGet request.forwardedFor) with
    | some ip => ip
    | none => (untrusted parse trusted (headerGet request.realIP)).getD remote

def edgeClientIP (request : Request) : String :=
  let host := clientIPFromTrust parse trusted request
  if host = "" then "unknown" else host

def edgeAggregateLimitKey (request : Request) : String :=
  "edge:aggregate:" ++ edgeClientIP parse trusted request

end

/-! ## Proxies -/

inductive Appending where
  | lastLine
  | furtherLine
  deriving DecidableEq

structure Proxy where
  address : String
  appending : Appending

def Appending.append (appending : Appending) (address : String) (lines : List String) : List String :=
  match appending, lines.getLast? with
  | .lastLine, some last => lines.dropLast ++ [last ++ ", " ++ address]
  | _, _ => lines ++ [address]

/-- Pass the header lines of a peer's request through proxies. -/
def pass (peer : String) (lines : List String) : List Proxy → List String
  | [] => lines
  | proxy :: rest => pass proxy.address (proxy.appending.append peer lines) rest

def delivered (client : String) (proxies : List Proxy) (remoteAddr : String)
    (lines realIP : List String) : Request :=
  { remoteAddr, forwardedFor := pass client lines proxies, realIP }

structure IsAddress (parse : String → Option String) (address : String) : Prop where
  parsed : parse address = some address
  trimmed : Go.trimSpace address = address
  unbracketed : trimBrackets address = address
  single : ',' ∉ address.toList
  filled : address ≠ ""

instance (parse : String → Option String) (address : String) : Decidable (IsAddress parse address) :=
  decidable_of_iff (parse address = some address ∧ Go.trimSpace address = address ∧
      trimBrackets address = address ∧
      ',' ∉ address.toList ∧ address ≠ "")
    ⟨fun all => ⟨all.1, all.2.1, all.2.2.1, all.2.2.2.1, all.2.2.2.2⟩,
      fun all => ⟨all.parsed, all.trimmed, all.unbracketed, all.single, all.filled⟩⟩

section
variable {parse : String → Option String} {trusted : String → Bool}

theorem split_append {text part : String} (single : ',' ∉ part.toList) :
    Go.split (text ++ ", " ++ part) ',' = Go.split text ',' ++ [" " ++ part] := by
  have chars : (text ++ ", " ++ part).toList = text.toList ++ ',' :: (" " ++ part).toList := by simp
  have alone : (" " ++ part).toList.splitOn ',' = [(" " ++ part).toList] :=
    splitOn_eq_singleton (by simpa using single)
  rw [Go.split, chars, splitOn_append_cons_self, map_append, alone, Go.split]
  simp

section
variable {address : String} (isAddress : IsAddress parse address)
include isAddress

theorem trimSpace_after_space : Go.trimSpace (" " ++ address) = address := by
  have dropped : (" " ++ address).toList.dropWhile Text.unicodeSpace =
      address.toList.dropWhile Text.unicodeSpace := by
    rw [String.toList_append]
    exact dropWhile_cons_of_pos (by decide)
  have trimmed := isAddress.trimmed
  rw [Go.trimSpace, Text.trim, Text.trimChars] at trimmed ⊢
  rw [dropped, trimmed]

theorem untrusted_address (before : String) (blank : before = "" ∨ before = " ") :
    untrusted parse trusted (before ++ address) = if trusted address then none else some address := by
  have read : trimBrackets (Go.trimSpace (before ++ address)) = address := by
    rcases blank with rfl | rfl
    · rw [String.empty_append, isAddress.trimmed, isAddress.unbracketed]
    · rw [trimSpace_after_space isAddress, isAddress.unbracketed]
  rw [untrusted]
  simp only [read, isAddress.parsed, Option.bind_some]

theorem closest_append {line : String} :
    closest parse trusted (line ++ ", " ++ address) =
      if trusted address then closest parse trusted line else some address := by
  rw [closest, split_append isAddress.single, reverse_append, reverse_singleton, singleton_append,
    findSome?_cons, untrusted_address isAddress " " (.inr rfl)]
  cases trusted address <;> rfl

theorem closest_address (isClient : trusted address = false) :
    closest parse trusted address = some address := by
  have alone : Go.split address ',' = [address] := by
    rw [Go.split, splitOn_eq_singleton isAddress.single]
    simp
  have read := @untrusted_address parse trusted address isAddress "" (.inl rfl)
  rw [String.empty_append, isClient] at read
  rw [closest, alone, reverse_singleton, findSome?_cons, read]
  rfl

end

/-! ## The first line -/

/-- A proxy appends to the first line only where it is the last one. -/
theorem headerGet_append (appending : Appending) (address : String) (lines : List String) :
    headerGet (appending.append address lines) =
      if lines = [] then address
      else if lines.length = 1 ∧ appending = .lastLine then headerGet lines ++ ", " ++ address
      else headerGet lines := by
  cases lines with
  | nil => cases appending <;> rfl
  | cons line rest =>
    cases appending with
    | furtherLine => simp [Appending.append, headerGet]
    | lastLine =>
      cases rest with
      | nil => simp [Appending.append, headerGet]
      | cons next rest =>
        obtain ⟨last, isLast⟩ : ∃ last,
          (line :: next :: rest).getLast? = some last := ⟨_, getLast?_eq_some_getLast (by simp)⟩
        simp [Appending.append, isLast, headerGet]

theorem append_ne_nil (appending : Appending) (address : String) (lines : List String) :
    appending.append address lines ≠ [] := by
  rw [Appending.append.eq_def]
  split <;> simp

def AllTrusted (parse : String → Option String) (trusted : String → Bool)
    (proxies : List Proxy) : Prop :=
  ∀ proxy ∈ proxies, IsAddress parse proxy.address ∧ trusted proxy.address = true

theorem closest_pass {peer : String} {lines : List String} {proxies : List Proxy} (filled : lines ≠ [])
    (isPeer : IsAddress parse peer) (peerTrusted : trusted peer = true)
    (all : AllTrusted parse trusted proxies) :
    closest parse trusted (headerGet (pass peer lines proxies)) =
      closest parse trusted (headerGet lines) := by
  induction proxies generalizing peer lines with
  | nil => rfl
  | cons proxy rest ih =>
    obtain ⟨isProxy, proxyTrusted⟩ := all proxy mem_cons_self
    have others : AllTrusted parse trusted rest :=
      fun other among => all other (mem_cons_of_mem _ among)
    rw [pass, ih (append_ne_nil proxy.appending peer lines) isProxy proxyTrusted others,
      headerGet_append, if_neg filled]
    split
    · rw [closest_append isPeer, if_pos peerTrusted]
    · rfl

/-- The server takes what it finds in the first line once the first proxy has appended the
client. -/
theorem clientIPFromTrust_delivered {client remoteAddr ip : String} {first : Proxy} {rest : List Proxy}
    {lines : List String} (realIP : List String) (all : AllTrusted parse trusted (first :: rest))
    (peer : (first :: rest).getLast?.map Proxy.address = some (remoteHost remoteAddr))
    (found : closest parse trusted (headerGet (first.appending.append client lines)) = some ip) :
    clientIPFromTrust parse trusted (delivered client (first :: rest) remoteAddr lines realIP) =
      ip := by
  obtain ⟨isFirst, firstTrusted⟩ := all first mem_cons_self
  have others : AllTrusted parse trusted rest := fun proxy among => all proxy (mem_cons_of_mem _ among)
  have remoteTrusted : trusted (remoteHost remoteAddr) = true := by
    obtain ⟨last, isLast, address⟩ := Option.map_eq_some_iff.mp peer
    rw [← address]
    exact (all last (mem_of_getLast? isLast)).2
  have same := closest_pass (append_ne_nil first.appending client lines) isFirst firstTrusted others
  simp only [delivered, pass, clientIPFromTrust, remoteTrusted, same, found,
    Bool.true_eq_false, if_false]

/-- A client's address is found, whatever it sent in a given number of lines, exactly when it sent
none, or one that the first proxy has continued. A peer that is not trusted is always the client. -/
theorem client_address_iff (client other remoteAddr : String) (first : Proxy)
    (rest : List Proxy) (count : Nat) (isClient : IsAddress parse client)
    (clientUntrusted : trusted client = false) (isOther : IsAddress parse other)
    (otherUntrusted : trusted other = false) (apart : other ≠ client)
    (all : AllTrusted parse trusted (first :: rest))
    (peer : (first :: rest).getLast?.map Proxy.address = some (remoteHost remoteAddr)) :
    ((∀ lines realIP, lines.length = count →
        clientIPFromTrust parse trusted (delivered client (first :: rest) remoteAddr lines realIP) =
          client ∧
        edgeAggregateLimitKey parse trusted (delivered client (first :: rest) remoteAddr
          lines realIP) =
          "edge:aggregate:" ++ client) ↔
      count = 0 ∨ count = 1 ∧ first.appending = .lastLine) ∧
    ∀ request : Request, trusted (remoteHost request.remoteAddr) = false →
      clientIPFromTrust parse trusted request = remoteHost request.remoteAddr := by
  refine ⟨⟨fun always => ?_, fun shape lines realIP counted => ?_⟩, fun request direct =>
    if_pos direct⟩
  · by_contra shape
    rw [not_or, not_and] at shape
    obtain ⟨more, rfl⟩ := Nat.exists_eq_succ_of_ne_zero shape.1
    -- The client claims another address in its first line, and no proxy touches that line.
    have claimed : headerGet (first.appending.append client (other :: List.replicate more "")) =
        other := by
      rw [headerGet_append, if_neg (by simp), if_neg]
      · rfl
      · rintro ⟨single, continued⟩
        exact shape.2 (by simpa using single) continued
    have found : closest parse trusted
        (headerGet (first.appending.append client (other :: List.replicate more ""))) =
        some other := by
      rw [claimed, closest_address isOther otherUntrusted]
    have address := (always (other :: List.replicate more "") [] (by simp)).1
    exact apart ((clientIPFromTrust_delivered [] all peer found).symm.trans address)
  · have found : closest parse trusted (headerGet (first.appending.append client lines)) =
        some client := by
      rw [headerGet_append]
      rcases shape with none | ⟨single, continued⟩
      · rw [if_pos (length_eq_zero_iff.mp (counted.trans none)),
          closest_address isClient clientUntrusted]
      · have filled : lines ≠ [] := length_pos_iff.mp (by omega)
        rw [if_neg filled, if_pos ⟨counted.trans single, continued⟩, closest_append isClient,
          clientUntrusted]
        rfl
    have address := clientIPFromTrust_delivered realIP all peer found
    refine ⟨address, ?_⟩
    rw [edgeAggregateLimitKey, edgeClientIP, address, if_neg isClient.filled]

end

/-! ## A proxy behind a client -/

def trustedTen (address : String) : Bool := Go.hasPrefix address "10."

def dotted : String → Option String := parseIP fun _ => none

theorem client_address_continued :
    AllTrusted dotted trustedTen [⟨"10.1.2.3", .lastLine⟩] ∧
    ∀ line realIP,
      clientIPFromTrust dotted trustedTen
        (delivered "192.0.2.44" [⟨"10.1.2.3", .lastLine⟩] "10.1.2.3:4321" [line] realIP) =
          "192.0.2.44" := by
  have all : AllTrusted dotted trustedTen [⟨"10.1.2.3", .lastLine⟩] := by
    intro proxy among
    rw [mem_singleton] at among
    subst among
    decide +kernel
  refine ⟨all, fun line realIP => ?_⟩
  exact ((client_address_iff "192.0.2.44" "198.51.100.99" "10.1.2.3:4321" ⟨"10.1.2.3", .lastLine⟩ [] 1
    (by decide +kernel) (by decide +kernel) (by decide +kernel) (by decide +kernel)
    (by decide +kernel) all (by decide +kernel)).1.mpr (.inr ⟨rfl, rfl⟩) [line] realIP rfl).1

/-- A client that sends its own header chooses its address where the proxy adds a further line. -/
theorem forwarded_line_spoofs :
    (delivered "192.0.2.44" [⟨"10.1.2.3", .furtherLine⟩] "10.1.2.3:4321" ["198.51.100.99"]
      []).forwardedFor =
        ["198.51.100.99", "192.0.2.44"] ∧
      clientIPFromTrust dotted trustedTen
        (delivered "192.0.2.44" [⟨"10.1.2.3", .furtherLine⟩] "10.1.2.3:4321" ["198.51.100.99"] []) =
          "198.51.100.99" := by
  decide +kernel

end Scribe.Auth
