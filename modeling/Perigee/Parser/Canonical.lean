import Perigee.Data.Wire
import Perigee.Soroban.Outcome

/-!
# JSON arguments as contract values

`core/src/parser.rs`.  A JSON value becomes an `ScVal`; the entries of an object are sorted by the
XDR of their symbol keys.  The XDR of a symbol has its length before its text, so this is the
shortlex order of the keys, while the host asks for their lexicographic order.
-/

namespace Parser

open Wire Soroban

/-- A text is its UTF-8 bytes. -/
abbrev Text := Bytes

inductive ParserError where
  | invalidType (location expected found : Text)
  | invalidSymbol (location details : Text)
  | invalidHex (location details : Text)
  | invalidXdr (location details : Text)

/-- `serde_json::Number`; of a float only the text it is displayed as is used. -/
inductive Number where
  | posInt (n : UInt64)
  | negInt (n : Int64)
  | float (shown : Text)

/-- `serde_json::Value`.  The members of an object are listed as the map iterates over them. -/
inductive Json where
  | null
  | bool (b : Bool)
  | number (n : Number)
  | string (s : Text)
  | array (items : List Json)
  | object (members : List (Text × Json))

inductive ScAddress where
  | account (key : Bytes)
  | contract (hash : Bytes)

inductive ScVal where
  | void
  | bool (b : Bool)
  | i64 (n : ℤ)
  | u64 (n : UInt64)
  | symbol (text : Text)
  | bytes (bytes : Bytes)
  | string (text : Text)
  | address (a : ScAddress)
  | vec (items : List ScVal)
  | map (entries : List (ScVal × ScVal))
  /-- A value of one of the kinds that only the XDR decoder gives. -/
  | other (xdr : Bytes)

/-- The decoders of the libraries, with the texts of their errors. -/
structure Codec where
  parseAddress : Text → Option ScAddress
  hex : Text → Except Text Bytes
  base64 : Text → Except Text Bytes
  fromXdr : Bytes → Except Text ScVal

variable (codec : Codec) (path : Text)

/-- `VecM`, `BytesM` and `StringM` hold what a `u32` can count. -/
def limited {α : Type} (items : List α) (error : ParserError) : Except ParserError (List α) :=
  if items.length < 2 ^ 32 then .ok items else .error error

/-- `ScSymbol` holds up to 32 bytes of any kind. -/
def symbol (text : Text) (error : ParserError) : Except ParserError Text :=
  if text.length ≤ 32 then .ok text else .error error

def parseScValXdrAt (encoded : Text) : Except ParserError ScVal := do
  let bytes ← (codec.base64 encoded).mapError fun e =>
    .invalidXdr path (ascii "Invalid base64 encoding: " ++ e)
  (codec.fromXdr bytes).mapError fun e => .invalidXdr path (ascii "XDR decode error: " ++ e)

def parseString (s : Text) : Except ParserError ScVal :=
  let address := if (ascii "G" <+: s ∨ ascii "C" <+: s) ∧ s.length = 56 then codec.parseAddress s
    else none
  match address, (ascii ":").isPrefixOf? s, (ascii "0x").isPrefixOf? s,
    (ascii "xdr:").isPrefixOf? s with
  | some address, _, _, _ => .ok (.address address)
  | none, some name, _, _ =>
    .symbol <$> symbol name (.invalidSymbol path (ascii "Symbol must be 1-32 characters"))
  | none, none, some digits, _ => do
    let bytes ← (codec.hex digits).mapError (.invalidHex path)
    .bytes <$> limited bytes (.invalidHex path (ascii "Bytes exceed maximum allowed size"))
  | none, none, none, some encoded => parseScValXdrAt codec path encoded
  | none, none, none, none =>
    .string <$> limited s
      (.invalidType path (ascii "shorter string") (ascii "string length exceeds limit"))

def itemPath (i : ℕ) : Text := path ++ ascii "[" ++ ascii (toString i) ++ ascii "]"

def memberPath (key : Text) : Text := path ++ ascii "." ++ key

/-- The XDR of the value `ScVal::Symbol`: its discriminant, the length of the text, and the text
filled up to a multiple of four bytes. -/
def symbolXdr (text : Text) : Bytes :=
  be32 15 ++ bigEndian 4 text.length ++ (text ++ List.replicate ((4 - text.length % 4) % 4) 0)

/-- `entries.sort_by`, with the comparison of the encoded keys. -/
def sortByXdr (entries : List (Text × ScVal)) : List (Text × ScVal) :=
  entries.insertionSort fun a b => symbolXdr a.1 ≤ symbolXdr b.1

mutual

def parseValue (path : Text) : Json → Except ParserError ScVal
  | .null => .ok .void
  | .bool b => .ok (.bool b)
  | .number (.posInt n) => .ok (if n.toNat < 2 ^ 63 then .i64 n.toNat else .u64 n)
  | .number (.negInt n) => .ok (.i64 n.toInt)
  | .number (.float shown) =>
    .error (.invalidType path (ascii "integer") (ascii "number " ++ shown))
  | .string s => parseString codec path s
  | .array items => do
    let vec ← parseItems path 0 items
    .vec <$> limited vec
      (.invalidType path (ascii "shorter vector") (ascii "vector size exceeds limit"))
  | .object members => do
    let entries ← parseMembers path members
    .map <$> limited ((sortByXdr entries).map fun e => (.symbol e.1, e.2))
      (.invalidType path (ascii "smaller map") (ascii "map size exceeds limit"))

def parseItems (path : Text) (i : ℕ) : List Json → Except ParserError (List ScVal)
  | [] => .ok []
  | item :: items => do
    let first ← parseValue (itemPath path i) item
    let rest ← parseItems path (i + 1) items
    .ok (first :: rest)

def parseMembers (path : Text) : List (Text × Json) → Except ParserError (List (Text × ScVal))
  | [] => .ok []
  | (key, value) :: members => do
    let name ← symbol key
      (.invalidSymbol (memberPath path key) (ascii "Key name too long for symbol"))
    let first ← parseValue (memberPath path key) value
    let rest ← parseMembers path members
    .ok ((name, first) :: rest)

end

/-! ## What a canonical map is -/

/-- The second value is met at the second path when the first one is parsed at the first path. -/
inductive Inside : Text → Json → Text → Json → Prop
  | here {path : Text} {value : Json} : Inside path value path value
  | item {path place : Text} {items : List Json} {i : ℕ} {value found : Json} :
    items[i]? = some value → Inside (itemPath path i) value place found →
      Inside path (.array items) place found
  | member {path place : Text} {members : List (Text × Json)} {key : Text} {value found : Json} :
    (key, value) ∈ members → Inside (memberPath path key) value place found →
      Inside path (.object members) place found

/-- The keys are symbols, in strictly increasing order of their texts. -/
def Increasing (entries : List (ScVal × ScVal)) : Prop :=
  ∃ keys : List Text, entries.map Prod.fst = keys.map .symbol ∧ keys.Pairwise (· < ·)

/-- The entry is that of the member: its key as a symbol, and its parsed value. -/
def Holds (place : Text) (member : Text × Json) (entry : ScVal × ScVal) : Prop :=
  entry.1 = .symbol member.1 ∧
    parseValue codec (memberPath place member.1) member.2 = .ok entry.2

/-- Of two keys of the object the shorter one is also the smaller one. -/
def Graded (members : List (Text × Json)) : Prop :=
  ∀ a ∈ members, ∀ b ∈ members, a.1.length < b.1.length → a.1 < b.1

/-! ## Values inside an accepted value -/

variable {codec path}

theorem limited_ok_iff {α : Type} {items result : List α} {error : ParserError} :
    limited items error = .ok result ↔ items.length < 2 ^ 32 ∧ items = result := by
  unfold limited
  split_ifs with fits
  · simp only [Except.ok.injEq, fits, true_and]
  · simp only [fits, false_and]

theorem parseItems_ok {items : List Json} {first : ℕ} {results : List ScVal}
    (h : parseItems codec path first items = .ok results) {i : ℕ} {value : Json}
    (at_i : items[i]? = some value) :
    ∃ r, parseValue codec (itemPath path (first + i)) value = .ok r := by
  induction items generalizing first i results with
  | nil => simp at at_i
  | cons item items ih =>
    simp only [parseItems, bind_ok_iff] at h
    obtain ⟨r, parsed, rest, others, -⟩ := h
    cases i with
    | zero =>
      obtain rfl : item = value := by simpa using at_i
      exact ⟨r, parsed⟩
    | succ i =>
      rw [← Nat.succ_add_eq_add_succ]
      exact ih others (by simpa using at_i)

theorem parseMembers_ok {members : List (Text × Json)} {entries : List (Text × ScVal)}
    (h : parseMembers codec path members = .ok entries) :
    entries.map Prod.fst = members.map Prod.fst ∧ (∀ e ∈ entries, e.1.length ≤ 32) ∧
      List.Forall₂ (Holds codec path) members (entries.map fun e => (.symbol e.1, e.2)) := by
  induction members generalizing entries with
  | nil =>
    obtain rfl : [] = entries := by simpa [parseMembers] using h
    exact ⟨rfl, by simp, .nil⟩
  | cons member members ih =>
    obtain ⟨key, value⟩ := member
    simp only [parseMembers, bind_ok_iff, symbol] at h
    obtain ⟨name, named, r, parsed, rest, others, h⟩ := h
    obtain rfl : (name, r) :: rest = entries := by simpa using h
    split_ifs at named with short
    obtain rfl : key = name := by simpa using named
    obtain ⟨keys, fits, held⟩ := ih others
    exact ⟨by simp [keys], List.forall_mem_cons.2 ⟨short, fits⟩, .cons ⟨rfl, parsed⟩ held⟩

theorem parseObject_ok {members : List (Text × Json)} {r : ScVal}
    (h : parseValue codec path (.object members) = .ok r) :
    ∃ entries, parseMembers codec path members = .ok entries ∧
      r = .map ((sortByXdr entries).map fun e => (.symbol e.1, e.2)) := by
  simp only [parseValue, bind_ok_iff, map_ok_iff, limited_ok_iff] at h
  obtain ⟨entries, parsed, _, ⟨-, rfl⟩, rfl⟩ := h
  exact ⟨entries, parsed, rfl⟩

/-- Every value inside an accepted value is accepted. -/
theorem Inside.accepted {place : Text} {value found : Json} {r : ScVal}
    (inside : Inside path value place found) (h : parseValue codec path value = .ok r) :
    ∃ r, parseValue codec place found = .ok r := by
  induction inside generalizing r with
  | here => exact ⟨r, h⟩
  | item at_i _ ih =>
    simp only [parseValue, bind_ok_iff] at h
    obtain ⟨results, parsed, -⟩ := h
    obtain ⟨r, accepted⟩ := parseItems_ok parsed at_i
    rw [Nat.zero_add] at accepted
    exact ih accepted
  | member mem _ ih =>
    obtain ⟨entries, parsed, -⟩ := parseObject_ok h
    obtain ⟨i, bound, at_i⟩ := List.getElem_of_mem mem
    have all := (parseMembers_ok parsed).2.2
    have held := all.get bound (all.length_eq ▸ bound)
    rw [List.get_eq_getElem, at_i] at held
    exact ih held.2

/-! ## The order of the encoded keys -/

theorem symbolXdr_lt {a b : Text} (fits : b.length ≤ 32) (lt : List.Shortlex (· < ·) a b) :
    symbolXdr a < symbolXdr b := by
  unfold symbolXdr
  rw [List.append_assoc]
  apply List.Lex.append_left
  rcases List.shortlex_def.1 lt with shorter | ⟨same, smaller⟩
  · exact append_lt_append (by simp) (bigEndian_lt shorter (by omega))
  · rw [same]
    apply List.Lex.append_left
    exact append_lt_append same smaller

theorem lt_of_symbolXdr_le {a b : Text} (fits : a.length ≤ 32) (ne : a ≠ b)
    (graded : a.length < b.length → a < b) (le : symbolXdr a ≤ symbolXdr b) : a < b := by
  by_contra not
  have smaller : b < a := Std.lt_of_le_of_ne not ne.symm
  apply absurd le
  apply List.not_le.2
  apply symbolXdr_lt fits
  rcases (not_lt.1 (mt graded not)).lt_or_eq with shorter | same
  · exact .of_length_lt shorter
  · exact .of_lex same smaller

theorem sortByXdr_sorted (entries : List (Text × ScVal)) :
    ((sortByXdr entries).map Prod.fst).Pairwise fun a b => symbolXdr a ≤ symbolXdr b :=
  List.pairwise_map.2 (List.pairwise_insertionSort _ _)

/-- Keys in the order of their encodings are in the order of their texts just when the shorter of
two keys is always the smaller one. -/
theorem pairwise_lt_iff {keys : List Text}
    (sorted : keys.Pairwise fun a b => symbolXdr a ≤ symbolXdr b) (distinct : keys.Nodup)
    (fits : ∀ key ∈ keys, key.length ≤ 32) :
    keys.Pairwise (· < ·) ↔ ∀ a ∈ keys, ∀ b ∈ keys, a.length < b.length → a < b := by
  constructor
  · intro increasing a ha b hb shorter
    obtain ⟨i, hi, rfl⟩ := List.getElem_of_mem ha
    obtain ⟨j, hj, rfl⟩ := List.getElem_of_mem hb
    rcases lt_trichotomy i j with lt | rfl | gt
    · exact List.pairwise_iff_getElem.1 increasing i j hi hj lt
    · exact absurd shorter (lt_irrefl _)
    · have le := List.pairwise_iff_getElem.1 sorted j i hj hi gt
      exact absurd le (List.not_le.2 (symbolXdr_lt (fits _ hb) (.of_length_lt shorter)))
  · intro graded
    refine (sorted.and distinct).imp_of_mem fun {a b} ha hb h => ?_
    exact lt_of_symbolXdr_le (fits a ha) h.2 (graded a ha b hb) h.1

theorem increasing_iff {entries : List (Text × ScVal)} :
    Increasing (entries.map fun e => (.symbol e.1, e.2)) ↔
      (entries.map Prod.fst).Pairwise (· < ·) := by
  constructor
  · rintro ⟨keys, same, increasing⟩
    rw [List.map_map] at same
    have injective : Function.Injective ScVal.symbol := fun _ _ => ScVal.symbol.inj
    have : (entries.map Prod.fst).map ScVal.symbol = keys.map ScVal.symbol := by
      rw [List.map_map]
      exact same
    rwa [injective.list_map this]
  · exact fun increasing => ⟨_, by simp, increasing⟩

/-- In an accepted value, the map of every object has one entry for each member, with its parsed
value, and its keys are strictly increasing just when the object's keys are graded. -/
theorem maps_canonical_iff {value : Json} {result : ScVal} {place : Text}
    {members : List (Text × Json)} (accepted : parseValue codec path value = .ok result)
    (inside : Inside path value place (.object members))
    (distinct : (members.map Prod.fst).Nodup) :
    ∃ entries, parseValue codec place (.object members) = .ok (.map entries) ∧
      (Increasing entries ↔ Graded members) ∧
        ∃ built, List.Forall₂ (Holds codec place) members built ∧ entries.Perm built := by
  obtain ⟨r, h⟩ := inside.accepted accepted
  obtain ⟨entries, parsed, rfl⟩ := parseObject_ok h
  obtain ⟨keys, fits, held⟩ := parseMembers_ok parsed
  have perm : (sortByXdr entries).Perm entries := List.perm_insertionSort _ _
  have members' (key : Text) :
      key ∈ (sortByXdr entries).map Prod.fst ↔ key ∈ members.map Prod.fst := by
    rw [(perm.map Prod.fst).mem_iff, keys]
  rw [← keys, ← (perm.map Prod.fst).nodup_iff] at distinct
  refine ⟨_, h, ?_, _, held, perm.map _⟩
  rw [increasing_iff, pairwise_lt_iff (sortByXdr_sorted entries) distinct
    (List.forall_mem_map.2 fun e mem => fits e (perm.mem_iff.1 mem))]
  simp only [members', List.forall_mem_map, Graded]

/-- The decoders are not asked where no string is parsed. -/
def noCodec : Codec := ⟨fun _ => none, .error, .error, fun _ => .error []⟩

/-- `{"b": null, "a": true}` has keys of one length; in `{"b": null, "aa": true}` the shorter key is
the larger one. -/
theorem maps_canonical_of_equal_lengths :
    (∃ entries, parseValue noCodec [] (.object [([98], .null), ([97], .bool true)]) =
        .ok (.map entries) ∧ Increasing entries) ∧
      ∃ entries, parseValue noCodec [] (.object [([98], .null), ([97, 97], .bool true)]) =
        .ok (.map entries) ∧ ¬ Increasing entries := by
  have accepted : parseValue noCodec [] (.object [([98], .null), ([97], .bool true)]) =
      .ok (.map [(.symbol [97], .bool true), (.symbol [98], .void)]) := rfl
  have accepted' : parseValue noCodec [] (.object [([98], .null), ([97, 97], .bool true)]) =
      .ok (.map [(.symbol [98], .void), (.symbol [97, 97], .bool true)]) := rfl
  obtain ⟨entries, parsed, canonical, -⟩ := maps_canonical_iff accepted .here (by decide)
  obtain ⟨entries', parsed', canonical', -⟩ := maps_canonical_iff accepted' .here (by decide)
  refine ⟨⟨entries, parsed, canonical.2 (by simp [Graded])⟩, entries', parsed',
    mt canonical'.1 fun graded => ?_⟩
  have smaller := graded ([98], .null) (by simp) ([97, 97], .bool true) (by simp) (by simp)
  revert smaller
  decide

/-- `{"aa": 1, "b": 2}` gives a map with `b` before `aa`. -/
theorem shorter_key_sorted_first :
    let entries := [(.symbol (ascii "b"), .i64 2), (.symbol (ascii "aa"), .i64 1)]
    parseValue noCodec (ascii "$") (.object
        [(ascii "aa", .number (.posInt 1)), (ascii "b", .number (.posInt 2))]) =
      .ok (.map entries) ∧ ¬ Increasing entries := by
  refine ⟨rfl, ?_⟩
  rintro ⟨keys, same, increasing⟩
  match keys, same with
  | [a, b], same =>
    obtain ⟨rfl, rfl⟩ := same
    revert increasing
    decide

end Parser
