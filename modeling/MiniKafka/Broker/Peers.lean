import MiniKafka.Broker.Reconciliation
import MiniKafka.Common.Murmur2
import MiniKafka.Foundations.Table
import MiniKafka.Foundations.TextStream
import MiniKafka.Protocol.Requests

/-!
# The peers of a broker

`mk-broker` reads the table of all brokers from the text of `--peers` and writes its own
address over its entry. From the ids of the table every broker chooses the coordinator of a
group, so brokers that were given one text agree on it, and on where it is as far as the
addresses they were given for themselves are those of the text.
-/

namespace MiniKafka.Broker

open Cluster Common Foundations Protocol Std

abbrev PeersTable := ExtTreeMap BrokerId Address compare

/-- How `parse_peers` ends the process: it finds an entry malformed and exits, or `stoul`
throws. -/
inductive PeersError
  | malformed (token : Bytes)
  | invalidArgument
  | outOfRange
  deriving DecidableEq, Repr

/-- `getline` until it fails: a separator at the end opens no further token. -/
def getlines (sep : UInt8) (text : Bytes) : List Bytes :=
  let parts := text.splitOn sep
  if parts.getLast? = some [] then parts.dropLast else parts

/-- White space and a sign may precede the digits, and anything may follow them. -/
def stoul (text : Bytes) : Except PeersError UInt64 :=
  let (negative, body) := TextStream.sign (text.dropWhile isSpace)
  let digits := body.takeWhile isDigit
  if digits = [] then .error .invalidArgument
  else
    let (v, failed) := Foundations.getU64 negative (value digits)
    if failed then .error .outOfRange else .ok v

/-- `token.rfind(c)`. -/
def rfind (c : UInt8) (token : Bytes) : Option Nat :=
  (token.reverse.idxOf? c).map (token.length - 1 - ·)

/-- One turn of the loop. -/
def parsePeer (token : Bytes) : Except PeersError (BrokerId × Address) :=
  match token.idxOf? 64, rfind 58 token with
  | some atPos, some colon =>
      if colon < atPos then .error (.malformed token)
      else do
        let peerId ← stoul (token.take atPos)
        let peerHost := (token.drop (atPos + 1)).take (colon - atPos - 1)
        let peerPort ← stoul (token.drop (colon + 1))
        return (peerId.toUInt32, ⟨peerHost, peerPort.toUInt16⟩)
  | _, _ => .error (.malformed token)

def parsePeers (spec : Bytes) : Except PeersError PeersTable :=
  (getlines 44 spec).foldlM (fun peers token => do
    let (peerId, address) ← parsePeer token
    return peers.insert peerId address) ∅

/-- An entry as the usage text has it, `id@host:port`. -/
def peerText (e : BrokerId × Address) : Bytes :=
  decimal e.1.toNat ++ 64 :: (e.2.host ++ 58 :: decimal e.2.port.toNat)

def peersText (entries : List (BrokerId × Address)) : Bytes :=
  List.intercalate [44] (entries.map peerText)

section Parsing

variable {n : Nat} {e : BrokerId × Address} {entries : List (BrokerId × Address)}

theorem not_mem_decimal {b : UInt8} (hb : isDigit b = false) : b ∉ decimal n := by
  intro hmem
  rw [isDigit_of_mem_decimal hmem] at hb
  cases hb

theorem stoul_decimal (h : n < 2 ^ 64) : stoul (decimal n) = .ok (UInt64.ofNat n) := by
  obtain ⟨b, more, hdigits⟩ := List.exists_cons_of_ne_nil (decimal_ne_nil n)
  have hall : ∀ b ∈ decimal n, isDigit b = true := fun _ => isDigit_of_mem_decimal
  have hb : isDigit b = true := hall b (hdigits ▸ List.mem_cons_self)
  have hspace : (decimal n).dropWhile isSpace = decimal n := by
    rw [hdigits, List.dropWhile_cons_of_neg]
    rw [TextStream.isSpace_of_isDigit hb]
    exact Bool.false_ne_true
  have hsign : TextStream.sign (decimal n) = (false, decimal n) := by
    rw [hdigits]
    exact @TextStream.sign_signText more false b hb
  have htake : (decimal n).takeWhile isDigit = decimal n := List.takeWhile_eq_self_iff.mpr hall
  rw [stoul, hspace, hsign]
  simp only [htake, decimal_ne_nil, if_false, value_decimal, Foundations.getU64, if_pos h]
  rfl

theorem idxOf?_append {c : UInt8} {front : Bytes} (h : c ∉ front) (back : Bytes) :
    (front ++ c :: back).idxOf? c = some front.length := by
  induction front with
  | nil => simp [List.idxOf?_cons]
  | cons b rest ih =>
      obtain ⟨hb, hrest⟩ := not_or.mp (List.mem_cons.not.mp h)
      rw [List.cons_append, List.idxOf?_cons, ih hrest]
      simp [Ne.symm hb]

theorem rfind_append {c : UInt8} {back : Bytes} (h : c ∉ back) (front : Bytes) :
    rfind c (front ++ c :: back) = some front.length := by
  have hreverse : (front ++ c :: back).reverse = back.reverse ++ c :: front.reverse := by
    simp
  have hnot : c ∉ back.reverse := fun hmem => h (List.mem_reverse.mp hmem)
  rw [rfind, hreverse, idxOf?_append hnot, Option.map_some, List.length_reverse,
    List.length_append, List.length_cons]
  congr 1
  omega

/-- An entry is read as it was written, whatever its host, also with `@` and `:` in it. -/
theorem parsePeer_peerText (e : BrokerId × Address) : parsePeer (peerText e) = .ok e := by
  obtain ⟨peerId, host, port⟩ := e
  have hat : (peerText (peerId, ⟨host, port⟩)).idxOf? 64 =
      some (decimal peerId.toNat).length :=
    idxOf?_append (not_mem_decimal (by decide)) _
  have hsplit : peerText (peerId, ⟨host, port⟩) =
      (decimal peerId.toNat ++ 64 :: host) ++ 58 :: decimal port.toNat := by
    simp [peerText]
  have hcolon : rfind 58 (peerText (peerId, ⟨host, port⟩)) =
      some ((decimal peerId.toNat).length + (host.length + 1)) := by
    rw [hsplit, rfind_append (not_mem_decimal (by decide)), List.length_append,
      List.length_cons]
  have hid : (peerText (peerId, ⟨host, port⟩)).take (decimal peerId.toNat).length =
      decimal peerId.toNat := List.take_left
  have hhost : ((peerText (peerId, ⟨host, port⟩)).drop ((decimal peerId.toNat).length + 1)).take
      ((decimal peerId.toNat).length + (host.length + 1) - (decimal peerId.toNat).length - 1) =
      host := by
    have hwidth : (decimal peerId.toNat).length + (host.length + 1) -
        (decimal peerId.toNat).length - 1 = host.length := by
      omega
    rw [hwidth, ← List.drop_drop]
    simp [peerText]
  have hport : (peerText (peerId, ⟨host, port⟩)).drop
      ((decimal peerId.toNat).length + (host.length + 1) + 1) = decimal port.toNat := by
    rw [hsplit, ← List.drop_drop]
    have hlen : (decimal peerId.toNat ++ 64 :: host).length =
        (decimal peerId.toNat).length + (host.length + 1) := by
      rw [List.length_append, List.length_cons]
    rw [← hlen, List.drop_left]
    rfl
  have hidlt : peerId.toNat < 2 ^ 64 := peerId.toNat_lt.trans (by decide)
  have hportlt : port.toNat < 2 ^ 64 := port.toNat_lt.trans (by decide)
  rw [parsePeer, hat, hcolon]
  simp only [hid, hhost, hport, stoul_decimal hidlt, stoul_decimal hportlt]
  rw [if_neg (by omega)]
  have hidcast : (UInt64.ofNat peerId.toNat).toUInt32 = peerId := by
    apply UInt32.toNat_inj.mp
    simp
  have hportcast : (UInt64.ofNat port.toNat).toUInt16 = port := by
    apply UInt16.toNat_inj.mp
    simp
  change Except.ok ((UInt64.ofNat peerId.toNat).toUInt32,
    (⟨host, (UInt64.ofNat port.toNat).toUInt16⟩ : Address)) = _
  rw [hidcast, hportcast]

theorem getlines_peersText (hosts : ∀ e ∈ entries, (44 : UInt8) ∉ e.2.host) :
    getlines 44 (peersText entries) = entries.map peerText := by
  by_cases hnil : entries = []
  · subst hnil
    rfl
  · have hcommas : ∀ l ∈ entries.map peerText, (44 : UInt8) ∉ l := by
      intro l hl
      obtain ⟨e, he, rfl⟩ := List.mem_map.mp hl
      have hid : (44 : UInt8) ∉ decimal e.1.toNat := not_mem_decimal (by decide)
      have hport : (44 : UInt8) ∉ decimal e.2.port.toNat := not_mem_decimal (by decide)
      simp [peerText, hid, hport, hosts e he]
    have hparts := List.splitOn_intercalate 44 hcommas (by simpa using hnil)
    have hlast : (entries.map peerText).getLast? ≠ some [] := by
      intro hlast
      obtain ⟨e, -, he⟩ := List.mem_map.mp (List.mem_of_getLast? hlast)
      simp [peerText] at he
    rw [getlines, peersText, hparts, if_neg hlast]

end Parsing

/-- The table of a text is parsed from it; of several entries for one id the last counts. -/
theorem parse_peers_text {entries : List (BrokerId × Address)}
    (hosts : ∀ e ∈ entries, (44 : UInt8) ∉ e.2.host) :
    parsePeers (peersText entries) = .ok (ExtTreeMap.ofList entries) := by
  have hloop : ∀ (entries : List (BrokerId × Address)) (peers : PeersTable),
      (entries.map peerText).foldlM (fun peers token => do
        let (peerId, address) ← parsePeer token
        return peers.insert peerId address) peers =
      (.ok (entries.foldl (fun peers e => peers.insert e.1 e.2) peers) :
        Except PeersError PeersTable) := by
    intro entries
    induction entries with
    | nil =>
        intro peers
        rfl
    | cons e rest ih =>
        intro peers
        rw [List.map_cons, List.foldlM_cons, parsePeer_peerText]
        exact ih (peers.insert e.1 e.2)
  rw [parsePeers, getlines_peersText hosts, hloop, foldl_insert_eq_ofList]

/-- The second host is an IPv6 address. -/
def twoPeers : List (BrokerId × Address) :=
  [(1, ⟨[108, 104], 9091⟩), (2, ⟨[58, 58, 49], 9092⟩)]

theorem parse_peers_text_two :
    parsePeers [49, 64, 108, 104, 58, 57, 48, 57, 49, 44, 50, 64, 58, 58, 49, 58, 57, 48, 57, 50] =
      .ok (ExtTreeMap.ofList twoPeers) := by
  have htext : peersText twoPeers =
      [49, 64, 108, 104, 58, 57, 48, 57, 49, 44, 50, 64, 58, 58, 49, 58, 57, 48, 57, 50] := by
    decide +kernel
  rw [← htext]
  exact parse_peers_text (by decide)

end MiniKafka.Broker
