import Tethereum.Rpc.Text
import Tethereum.Rpc.Types
import Mathlib.Data.List.Nodup

/-!
# Reading block tags

A tag is a word, a number in hexadecimal digits behind `0x`, or an object with a
number or a hash in it. The object is read entry by entry, and its number ends
the reading.
-/

namespace Tethereum

open HexText

namespace BlockNumberVisitor

/-- The number of a `0x` string, a parse that both forms of a tag write out. -/
def parseHexNumber (value : String) : Outcome (Except String U64) :=
  if startsWith value "0x" then
    (sliceFrom value 2).map fun digits =>
      (fromStrRadix digits).mapError fun e => "Invalid block number: " ++ e.display
  else some (.error "Invalid block number: missing 0x prefix")

/-- `visit_str`. -/
def visitStr (value : String) : Outcome (Except String BlockNumber) :=
  match value with
  | "latest" => some (.ok .latest)
  | "earliest" => some (.ok .earliest)
  | "pending" => some (.ok .pending)
  | _ => (parseHexNumber value).map (·.map .num)

/-- `visit_string`. -/
def visitString (value : String) : Outcome (Except String BlockNumber) := visitStr value

/-! ## The object form -/

/-- How the values of an object are read, by the type asked for. -/
structure MapAccess (V : Type) where
  /-- `next_value::<String>`. -/
  string : V → Except String String
  /-- `next_value::<H256>`. -/
  hash : V → Except String H256
  /-- `next_value::<bool>`. -/
  bool : V → Except String Bool
  /-- The error for an object whose entries were not all read. -/
  unread : String

/-- The variables of `visit_map`. -/
structure MapState where
  /-- `require_canonical`. -/
  requireCanonical : Bool := false
  /-- `block_number`. -/
  blockNumber : Option U64 := none
  /-- `block_hash`. -/
  blockHash : Option H256 := none
  deriving DecidableEq

variable {V : Type}

/-- The loop of `visit_map`, which leaves some entries unread. -/
def visitEntries (access : MapAccess V) (state : MapState) :
    List (String × V) → Outcome (Except String (MapState × List (String × V)))
  | [] => some (.ok (state, []))
  | (key, v) :: rest =>
    match key with
    | "blockNumber" =>
      match access.string v with
      | .error e => some (.error e)
      | .ok value => (parseHexNumber value).map fun number =>
        -- the loop breaks off here
        number.map fun number => ({ state with blockNumber := some number }, rest)
    | "blockHash" =>
      match access.hash v with
      | .error e => some (.error e)
      | .ok hash => visitEntries access { state with blockHash := some hash } rest
    | "requireCanonical" =>
      match access.bool v with
      | .error e => some (.error e)
      | .ok flag => visitEntries access { state with requireCanonical := flag } rest
    | key => some (.error ("Unknown key: " ++ key))

/-- The tag of the variables after the loop. -/
def MapState.tag (state : MapState) : Except String BlockNumber :=
  match state.blockNumber with
  | some number => .ok (.num number)
  | none =>
    match state.blockHash with
    | some hash => .ok (.hash hash state.requireCanonical)
    | none => .error "Invalid input"

/-- `visit_map`, with the entries that it leaves unread. -/
def visitMap (access : MapAccess V) (entries : List (String × V)) :
    Outcome (Except String (BlockNumber × List (String × V))) :=
  (visitEntries access {} entries).map fun result => do
    let (state, rest) ← result
    let tag ← state.tag
    return (tag, rest)

/-- `BlockNumber::deserialize` of an object: all entries have to be read. -/
def deserializeMap (access : MapAccess V) (entries : List (String × V)) :
    Outcome (Except String BlockNumber) :=
  (visitMap access entries).map fun result => do
    let (tag, rest) ← result
    if rest.isEmpty then return tag else throw access.unread

/-! ## Numbers and words -/

/-- The text is `0x` and a number in hexadecimal digits. -/
def IsNumberTag (x : String) (n : U64) : Prop :=
  ∃ digits, x.toList = '0' :: 'x' :: digits ∧ IsNumeral digits n

/-- The text has a plus sign between `0x` and the digits of a number. -/
def IsSignedTag (x : String) (n : U64) : Prop :=
  ∃ digits, x.toList = '0' :: 'x' :: '+' :: digits ∧ IsNumeral digits n

section

variable {x : String} {n : U64}

/-- The parse of a number never panics. -/
theorem exists_parseHexNumber (x : String) : ∃ result, parseHexNumber x = some result := by
  unfold parseHexNumber
  split
  · rename_i h
    obtain ⟨text, htext⟩ := startsWith_0x_iff.mp h
    rw [sliceFrom_0x htext]
    exact ⟨_, rfl⟩
  · exact ⟨_, rfl⟩

/-- A number is parsed behind `0x`, with or without a plus sign. -/
theorem parseHexNumber_eq_ok_iff :
    parseHexNumber x = some (.ok n) ↔ IsNumberTag x n ∨ IsSignedTag x n := by
  unfold parseHexNumber
  by_cases hpre : startsWith x "0x" = true
  · obtain ⟨text, htext⟩ := startsWith_0x_iff.mp hpre
    have hmap : ∀ result : Except IntErrorKind U64,
        (result.mapError fun e => "Invalid block number: " ++ e.display) = .ok n ↔
          result = .ok n := by
      intro result
      cases result <;> simp [Except.mapError]
    rw [if_pos hpre, sliceFrom_0x htext, Option.map_some, Option.some_inj, hmap,
      fromStrRadix_eq_ok_iff, String.toList_ofList]
    simp only [IsNumberTag, IsSignedTag, htext, List.cons.injEq, true_and, exists_eq_left']
  · rw [if_neg hpre]
    refine iff_of_false (by simp) ?_
    rintro (⟨digits, htext, _⟩ | ⟨digits, htext, _⟩)
    · exact hpre (startsWith_0x_iff.mpr ⟨_, htext⟩)
    · exact hpre (startsWith_0x_iff.mpr ⟨_, htext⟩)

/-- A text that is none of the words is parsed as a number. -/
theorem visitStr_of_ne (hl : x ≠ "latest") (he : x ≠ "earliest") (hp : x ≠ "pending") :
    visitStr x = (parseHexNumber x).map (·.map .num) := by
  unfold visitStr
  split
  · contradiction
  · contradiction
  · contradiction
  · rfl

/-- No word is parsed as a number. -/
theorem parseHexNumber_ne_ok_of_word (h : x = "latest" ∨ x = "earliest" ∨ x = "pending") :
    parseHexNumber x ≠ some (.ok n) := by
  rcases h with rfl | rfl | rfl
  · rintro ⟨⟩
  · rintro ⟨⟩
  · rintro ⟨⟩

/-- A text is read as a number exactly when it is parsed as one. -/
theorem visitStr_eq_num_iff :
    visitStr x = some (.ok (.num n)) ↔ parseHexNumber x = some (.ok n) := by
  by_cases hword : x = "latest" ∨ x = "earliest" ∨ x = "pending"
  · refine iff_of_false ?_ (parseHexNumber_ne_ok_of_word hword)
    rcases hword with rfl | rfl | rfl
    · rintro ⟨⟩
    · rintro ⟨⟩
    · rintro ⟨⟩
  · simp only [not_or] at hword
    obtain ⟨result, hresult⟩ := exists_parseHexNumber x
    rw [visitStr_of_ne hword.1 hword.2.1 hword.2.2, hresult]
    cases result with
    | error e => simp [Except.map]
    | ok m => simp [Except.map]

/-- A text that is none of the words is not read as one. -/
theorem visitStr_of_ne_word (hl : x ≠ "latest") (he : x ≠ "earliest") (hp : x ≠ "pending") :
    (∃ n, visitStr x = some (.ok (.num n))) ∨ ∃ e, visitStr x = some (.error e) := by
  obtain ⟨result, hresult⟩ := exists_parseHexNumber x
  rw [visitStr_of_ne hl he hp, hresult]
  cases result with
  | error e => exact Or.inr ⟨e, rfl⟩
  | ok n => exact Or.inl ⟨n, rfl⟩

/-- Each word is read as its tag, and nothing else is. -/
theorem visitStr_word_iff :
    (visitStr x = some (.ok .latest) ↔ x = "latest") ∧
      (visitStr x = some (.ok .earliest) ↔ x = "earliest") ∧
        (visitStr x = some (.ok .pending) ↔ x = "pending") := by
  by_cases hword : x = "latest" ∨ x = "earliest" ∨ x = "pending"
  · rcases hword with rfl | rfl | rfl
    · decide
    · decide
    · decide
  · simp only [not_or] at hword
    rcases visitStr_of_ne_word hword.1 hword.2.1 hword.2.2 with ⟨n, h⟩ | ⟨e, h⟩
    · simp [h, hword]
    · simp [h, hword]

end

/-! ## Entries of an object -/

section

variable {V : Type} {access : MapAccess V} {entries rest : List (String × V)}
  {entry : String × V} {state : MapState}

/-- The key of an entry is known, and its value can be read. -/
def EntryValid (access : MapAccess V) (entry : String × V) : Prop :=
  (entry.1 = "blockNumber" ∧
      ∃ value n, access.string entry.2 = .ok value ∧ parseHexNumber value = some (.ok n)) ∨
    (entry.1 = "blockHash" ∧ ∃ hash, access.hash entry.2 = .ok hash) ∨
    (entry.1 = "requireCanonical" ∧ ∃ flag, access.bool entry.2 = .ok flag)

/-- The value of a valid number is parsed. -/
theorem EntryValid.number (h : EntryValid access entry) (hkey : entry.1 = "blockNumber") :
    ∃ value n, access.string entry.2 = .ok value ∧ parseHexNumber value = some (.ok n) := by
  rcases h with ⟨_, h⟩ | ⟨hhash, _⟩ | ⟨hflag, _⟩
  · exact h
  · rw [hkey] at hhash
    exact absurd hhash (by decide)
  · rw [hkey] at hflag
    exact absurd hflag (by decide)

/-- What a valid entry other than the number does to the variables. -/
def MapState.set (access : MapAccess V) (state : MapState) (entry : String × V) : MapState :=
  if entry.1 = "blockHash" then { state with blockHash := (access.hash entry.2).toOption }
  else if entry.1 = "requireCanonical" then
    { state with requireCanonical := (access.bool entry.2).toOption.getD false }
  else state

/-- A valid entry other than the number is read, and the loop goes on. -/
theorem visitEntries_of_valid (hkey : entry.1 ≠ "blockNumber") (h : EntryValid access entry) :
    visitEntries access state (entry :: rest) =
      visitEntries access (state.set access entry) rest := by
  obtain ⟨key, v⟩ := entry
  rcases h with ⟨rfl, _⟩ | ⟨rfl, hash, hhash⟩ | ⟨rfl, flag, hflag⟩
  · contradiction
  · simp [visitEntries, MapState.set, hhash, Except.toOption]
  · simp [visitEntries, MapState.set, hflag, Except.toOption]

/-- A valid number ends the loop, and what follows is left unread. -/
theorem visitEntries_number {v : V} {value : String} {n : U64} (hv : access.string v = .ok value)
    (hn : parseHexNumber value = some (.ok n)) :
    visitEntries access state (("blockNumber", v) :: rest) =
      some (.ok ({ state with blockNumber := some n }, rest)) := by
  simp only [visitEntries, hv, hn]
  rfl

/-- An entry that is not valid ends the loop with an error. -/
theorem visitEntries_of_not_valid (h : ¬ EntryValid access entry) (state : MapState)
    (rest : List (String × V)) :
    ∃ e, visitEntries access state (entry :: rest) = some (.error e) := by
  obtain ⟨key, v⟩ := entry
  unfold visitEntries
  split
  · cases hvalue : access.string v with
    | error e => exact ⟨e, rfl⟩
    | ok value =>
      obtain ⟨result, hresult⟩ := exists_parseHexNumber value
      cases result with
      | error e =>
        refine ⟨e, ?_⟩
        simp only [hresult]
        rfl
      | ok n => exact absurd (Or.inl ⟨rfl, value, n, hvalue, hresult⟩) h
  · cases hhash : access.hash v with
    | error e => exact ⟨e, rfl⟩
    | ok hash => exact absurd (Or.inr (Or.inl ⟨rfl, hash, hhash⟩)) h
  · cases hflag : access.bool v with
    | error e => exact ⟨e, rfl⟩
    | ok flag => exact absurd (Or.inr (Or.inr ⟨rfl, flag, hflag⟩)) h
  · exact ⟨_, rfl⟩

/-- Valid entries other than the number are read one after another. -/
theorem visitEntries_append (hkeys : ∀ entry ∈ entries, entry.1 ≠ "blockNumber")
    (h : ∀ entry ∈ entries, EntryValid access entry) (state : MapState)
    (rest : List (String × V)) :
    visitEntries access state (entries ++ rest) =
      visitEntries access (entries.foldl (MapState.set access) state) rest := by
  induction entries generalizing state with
  | nil => rfl
  | cons entry entries ih =>
    obtain ⟨hkey, hkeys⟩ := List.forall_mem_cons.mp hkeys
    obtain ⟨hvalid, h⟩ := List.forall_mem_cons.mp h
    rw [List.cons_append, visitEntries_of_valid hkey hvalid, ih hkeys h, List.foldl_cons]

/-- The number of an object ends the reading, with what its text is parsed as, whatever entries
have been read before it. -/
theorem visitMap_number {x : String} {v : V} (hkeys : ∀ entry ∈ entries, entry.1 ≠ "blockNumber")
    (h : ∀ entry ∈ entries, EntryValid access entry) (hv : access.string v = .ok x)
    (rest : List (String × V)) :
    visitMap access (entries ++ ("blockNumber", v) :: rest) =
      (parseHexNumber x).map (·.map fun n => (.num n, rest)) := by
  obtain ⟨result, hresult⟩ := exists_parseHexNumber x
  unfold visitMap
  rw [visitEntries_append hkeys h]
  simp only [visitEntries, hv, hresult, Option.map_some]
  cases result with
  | error e => rfl
  | ok n => rfl

end

/-! ## The grammar of both forms -/

/-- A text is read as the grammar has it: as a number, as one of three words, or not at all, and
likewise in an object, whatever entries have been read before it. -/
structure ReadsGrammar (x : String) : Prop where
  /-- A number is read exactly from its own texts. -/
  num : ∀ n, visitStr x = some (.ok (.num n)) ↔ IsNumberTag x n
  /-- The newest block has one word. -/
  latest : visitStr x = some (.ok .latest) ↔ x = "latest"
  /-- So has the first one. -/
  earliest : visitStr x = some (.ok .earliest) ↔ x = "earliest"
  /-- So has the pending one. -/
  pending : visitStr x = some (.ok .pending) ↔ x = "pending"
  /-- No other text is read. -/
  refused : x ≠ "latest" → x ≠ "earliest" → x ≠ "pending" → (∀ n, ¬ IsNumberTag x n) →
    ∃ e, visitStr x = some (.error e)
  /-- In an object the same numbers are read. -/
  entry : ∀ {V : Type} (access : MapAccess V) (before rest : List (String × V)) (v : V) (n : U64),
    (∀ entry ∈ before, entry.1 ≠ "blockNumber") → (∀ entry ∈ before, EntryValid access entry) →
      access.string v = .ok x →
        ((∃ unread, visitMap access (before ++ ("blockNumber", v) :: rest) =
          some (.ok (.num n, unread))) ↔ IsNumberTag x n)
  /-- And no others. -/
  entryRefused : ∀ {V : Type} (access : MapAccess V) (before rest : List (String × V)) (v : V),
    (∀ entry ∈ before, entry.1 ≠ "blockNumber") → (∀ entry ∈ before, EntryValid access entry) →
      access.string v = .ok x → (∀ n, ¬ IsNumberTag x n) →
        ∃ e, visitMap access (before ++ ("blockNumber", v) :: rest) = some (.error e)

/-- A text is read as the grammar has it exactly when there is no plus sign between `0x` and the
digits of a number. -/
theorem readsGrammar_iff (x : String) : ReadsGrammar x ↔ ∀ n, ¬ IsSignedTag x n := by
  constructor
  · rintro h n ⟨digits, htext, hnum⟩
    have hread := visitStr_eq_num_iff.mpr
      (parseHexNumber_eq_ok_iff.mpr (Or.inr ⟨digits, htext, hnum⟩))
    obtain ⟨digits', htext', hnum'⟩ := (h.num n).mp hread
    rw [htext] at htext'
    cases htext'
    exact not_isNumeral_sign digits n hnum'
  · intro hunsigned
    have hparse : ∀ n, parseHexNumber x = some (.ok n) ↔ IsNumberTag x n := by
      intro n
      rw [parseHexNumber_eq_ok_iff]
      exact or_iff_left (hunsigned n)
    obtain ⟨result, hresult⟩ := exists_parseHexNumber x
    obtain ⟨hlatest, hearliest, hpending⟩ := @visitStr_word_iff x
    refine ⟨fun n => visitStr_eq_num_iff.trans (hparse n), hlatest, hearliest, hpending, ?_, ?_, ?_⟩
    · intro hl he hp hno
      refine (visitStr_of_ne_word hl he hp).resolve_left ?_
      rintro ⟨n, hn⟩
      exact hno n ((hparse n).mp (visitStr_eq_num_iff.mp hn))
    · intro V access before rest v n hkeys hvalid hv
      rw [visitMap_number hkeys hvalid hv, ← hparse n, hresult]
      cases result with
      | error e => simp [Except.map]
      | ok m => simp [Except.map]
    · intro V access before rest v hkeys hvalid hv hno
      rw [visitMap_number hkeys hvalid hv, hresult]
      cases result with
      | error e => exact ⟨e, rfl⟩
      | ok n => exact absurd ((hparse n).mp hresult) (hno n)

/-- A number with a plus sign is read as one. -/
theorem visitStr_signed :
    visitStr "0x+1f" = some (.ok (.num 31)) ∧ (∀ n, ¬ IsNumberTag "0x+1f" n) ∧
      ¬ ReadsGrammar "0x+1f" := by
  have hread : visitStr "0x+1f" = some (.ok (.num 31)) := rfl
  have hno : ∀ n, ¬ IsNumberTag "0x+1f" n := by
    rintro n ⟨digits, htext, hnum⟩
    have hdigits : ['+', '1', 'f'] = digits := by
      simpa using htext
    subst hdigits
    exact not_isNumeral_sign _ n hnum
  exact ⟨hread, hno, fun h => hno 31 ((h.num 31).mp hread)⟩

/-! ## The order of entries -/

section

variable {V : Type} {access : MapAccess V} {entries entries' rest : List (String × V)}
  {entry : String × V} {state : MapState}

/-- What an object is read as, with its error forgotten. -/
def mapOutcome (access : MapAccess V) (entries : List (String × V)) :
    Outcome (Option BlockNumber) :=
  (deserializeMap access entries).map Except.toOption

/-- The loop never panics. -/
theorem exists_visitEntries (access : MapAccess V) (state : MapState)
    (entries : List (String × V)) : ∃ result, visitEntries access state entries = some result := by
  induction entries generalizing state with
  | nil => exact ⟨_, rfl⟩
  | cons entry entries ih =>
    by_cases hvalid : EntryValid access entry
    · by_cases hkey : entry.1 = "blockNumber"
      · obtain ⟨value, n, hv, hn⟩ := hvalid.number hkey
        obtain ⟨key, v⟩ := entry
        subst hkey
        exact ⟨_, visitEntries_number hv hn⟩
      · rw [visitEntries_of_valid hkey hvalid]
        exact ih _
    · obtain ⟨e, he⟩ := visitEntries_of_not_valid hvalid state entries
      exact ⟨_, he⟩

/-- A loop that ends without an error has read valid entries only. -/
theorem valid_of_visitEntries {state' : MapState}
    (h : visitEntries access state entries = some (.ok (state', rest))) :
    ∃ read, entries = read ++ rest ∧ ∀ entry ∈ read, EntryValid access entry := by
  induction entries generalizing state with
  | nil =>
    cases h
    exact ⟨[], rfl, fun _ hmem => absurd hmem List.not_mem_nil⟩
  | cons entry entries ih =>
    by_cases hvalid : EntryValid access entry
    · by_cases hkey : entry.1 = "blockNumber"
      · obtain ⟨value, n, hv, hn⟩ := hvalid.number hkey
        obtain ⟨key, v⟩ := entry
        subst hkey
        rw [visitEntries_number hv hn] at h
        cases h
        exact ⟨[("blockNumber", v)], rfl, fun _ hmem => List.mem_singleton.mp hmem ▸ hvalid⟩
      · rw [visitEntries_of_valid hkey hvalid] at h
        obtain ⟨read, rfl, hread⟩ := ih h
        exact ⟨entry :: read, rfl, List.forall_mem_cons.mpr ⟨hvalid, hread⟩⟩
    · obtain ⟨e, he⟩ := visitEntries_of_not_valid hvalid state entries
      rw [he] at h
      cases h

/-- An object is read as the tag of its variables if the loop has read all of it. -/
theorem mapOutcome_of_ok {state' : MapState}
    (h : visitEntries access {} entries = some (.ok (state', rest))) :
    mapOutcome access entries = some (if rest = [] then state'.tag.toOption else none) := by
  unfold mapOutcome deserializeMap visitMap
  rw [h]
  cases htag : state'.tag with
  | error e =>
    simp [htag, bind, Except.bind, Except.toOption]
  | ok tag =>
    cases rest with
    | nil => simp [htag, bind, Except.bind, pure, Except.pure, Except.toOption]
    | cons entry rest =>
      simp [htag, bind, Except.bind, pure, Except.pure, Except.toOption, throw, throwThe,
        MonadExceptOf.throw]

/-- An object is refused if the loop ends with an error. -/
theorem mapOutcome_of_error {e : String}
    (h : visitEntries access {} entries = some (.error e)) :
    mapOutcome access entries = some none := by
  unfold mapOutcome deserializeMap visitMap
  rw [h]
  rfl

/-- An object with an entry that is not valid is refused, wherever the entry stands. -/
theorem mapOutcome_of_not_valid (hmem : entry ∈ entries) (h : ¬ EntryValid access entry) :
    mapOutcome access entries = some none := by
  obtain ⟨result, hresult⟩ := exists_visitEntries access {} entries
  cases result with
  | error e => exact mapOutcome_of_error hresult
  | ok left =>
    obtain ⟨state', rest⟩ := left
    obtain ⟨read, rfl, hread⟩ := valid_of_visitEntries hresult
    have hrest : entry ∈ rest := (List.mem_append.mp hmem).resolve_left fun hin => h (hread _ hin)
    rw [mapOutcome_of_ok hresult, if_neg (List.ne_nil_of_mem hrest)]

/-- Valid entries without a number are read as the tag of their variables. -/
theorem mapOutcome_of_valid (hkeys : ∀ entry ∈ entries, entry.1 ≠ "blockNumber")
    (h : ∀ entry ∈ entries, EntryValid access entry) :
    mapOutcome access entries =
      some (entries.foldl (MapState.set access) {}).tag.toOption := by
  have hread : visitEntries access {} entries =
      some (.ok (entries.foldl (MapState.set access) {}, [])) := by
    have happend := visitEntries_append hkeys h {} []
    rwa [List.append_nil] at happend
  rw [mapOutcome_of_ok hread, if_pos rfl]

/-- A valid number is read if it comes last. -/
theorem mapOutcome_of_number {v : V} {value : String} {n : U64}
    (hkeys : ∀ entry ∈ entries, entry.1 ≠ "blockNumber")
    (h : ∀ entry ∈ entries, EntryValid access entry) (hv : access.string v = .ok value)
    (hn : parseHexNumber value = some (.ok n)) (rest : List (String × V)) :
    mapOutcome access (entries ++ ("blockNumber", v) :: rest) =
      some (if rest = [] then some (.num n) else none) := by
  have hread := visitEntries_append hkeys h {} (("blockNumber", v) :: rest)
  rw [visitEntries_number hv hn] at hread
  rw [mapOutcome_of_ok hread]
  rfl

/-- Entries with different keys may change places. -/
theorem MapState.set_comm {entry' : String × V} (h : entry.1 ≠ entry'.1) :
    (state.set access entry).set access entry' = (state.set access entry').set access entry := by
  unfold MapState.set
  by_cases hhash : entry.1 = "blockHash"
  · have hhash' : entry'.1 ≠ "blockHash" := fun h' => h (hhash.trans h'.symm)
    simp only [hhash, hhash', if_true, if_false]
    split
    · rfl
    · rfl
  · by_cases hflag : entry.1 = "requireCanonical"
    · have hflag' : entry'.1 ≠ "requireCanonical" := fun h' => h (hflag.trans h'.symm)
      simp only [hflag, hflag', if_true, if_false, String.reduceEq]
      split
      · rfl
      · rfl
    · simp only [hhash, hflag, if_false]

/-- Without a number, valid entries with different keys are read alike in every order. -/
theorem mapOutcome_perm_of_valid (hnodup : (entries.map Prod.fst).Nodup)
    (hperm : entries'.Perm entries) (hkeys : ∀ entry ∈ entries, entry.1 ≠ "blockNumber")
    (h : ∀ entry ∈ entries, EntryValid access entry) :
    mapOutcome access entries' = mapOutcome access entries := by
  rw [mapOutcome_of_valid hkeys h,
    mapOutcome_of_valid (fun entry hmem => hkeys entry (hperm.mem_iff.mp hmem))
      fun entry hmem => h entry (hperm.mem_iff.mp hmem)]
  have hfold : entries'.foldl (MapState.set access) {} =
      entries.foldl (MapState.set access) {} := by
    apply hperm.foldl_eq'
    intro entry hentry entry' hentry' state
    by_cases heq : entry = entry'
    · rw [heq]
    · exact MapState.set_comm fun hkey => heq (List.inj_on_of_nodup_map hnodup
        (hperm.mem_iff.mp hentry) (hperm.mem_iff.mp hentry') hkey)
  rw [hfold]

/-- The object has a number and something else in it, and all of that is valid. -/
def NumberWithOthers (access : MapAccess V) (entries : List (String × V)) : Prop :=
  (∃ entry ∈ entries, entry.1 = "blockNumber") ∧ 1 < entries.length ∧
    ∀ entry ∈ entries, EntryValid access entry

/-- A number with others is refused in front of them and read behind them. -/
theorem NumberWithOthers.orders (hnodup : (entries.map Prod.fst).Nodup)
    (h : NumberWithOthers access entries) : ∃ front back, front.Perm entries ∧
      back.Perm entries ∧ mapOutcome access front = some none ∧
        ∃ n, mapOutcome access back = some (some (.num n)) := by
  obtain ⟨⟨number, hmem, hkey⟩, hlength, hvalid⟩ := h
  obtain ⟨before, after, rfl⟩ := List.append_of_mem hmem
  obtain ⟨value, n, hv, hn⟩ := (hvalid number hmem).number hkey
  have hperm : (number :: (before ++ after)).Perm (before ++ number :: after) :=
    List.perm_middle.symm
  have hne : before ++ after ≠ [] := by
    rintro hnil
    obtain ⟨rfl, rfl⟩ := List.append_eq_nil_iff.mp hnil
    exact absurd hlength (Nat.lt_irrefl 1)
  have hothers : ∀ entry ∈ before ++ after, entry.1 ≠ "blockNumber" ∧ EntryValid access entry := by
    have hnodup' := ((hperm.map Prod.fst).nodup_iff.mpr hnodup)
    rw [List.map_cons, List.nodup_cons] at hnodup'
    intro entry hentry
    refine ⟨fun hkey' => hnodup'.1 ?_,
      hvalid entry (hperm.mem_iff.mp (List.mem_cons_of_mem _ hentry))⟩
    rw [hkey, ← hkey']
    exact List.mem_map_of_mem hentry
  obtain ⟨key, v⟩ := number
  subst hkey
  refine ⟨("blockNumber", v) :: (before ++ after), (before ++ after) ++ [("blockNumber", v)], hperm,
    (List.perm_append_singleton _ _).trans hperm, ?_, n, ?_⟩
  · have hnone : ∀ entry ∈ ([] : List (String × V)), entry.1 ≠ "blockNumber" ∧
        EntryValid access entry := fun _ hmem => absurd hmem List.not_mem_nil
    have hfront := mapOutcome_of_number (fun entry hmem => (hnone entry hmem).1)
      (fun entry hmem => (hnone entry hmem).2) hv hn (before ++ after)
    rwa [if_neg hne] at hfront
  · have hback := mapOutcome_of_number (fun entry hmem => (hothers entry hmem).1)
      (fun entry hmem => (hothers entry hmem).2) hv hn []
    rwa [if_pos rfl] at hback

/-- An object is read alike, or refused alike, in every order of its entries exactly when it is
not a valid number together with other valid entries. -/
theorem mapOutcome_perm_iff (access : MapAccess V) (hnodup : (entries.map Prod.fst).Nodup) :
    (∀ entries', entries'.Perm entries →
      mapOutcome access entries' = mapOutcome access entries) ↔
        ¬ NumberWithOthers access entries := by
  constructor
  · intro hall hnumber
    obtain ⟨front, back, hfront, hback, hrefused, n, hread⟩ := hnumber.orders hnodup
    rw [hall front hfront, ← hall back hback, hread] at hrefused
    cases hrefused
  · intro hnot entries' hperm
    by_cases hvalid : ∀ entry ∈ entries, EntryValid access entry
    · by_cases hnumber : ∃ entry ∈ entries, entry.1 = "blockNumber"
      · -- then there is nothing else in the object
        have hlength : entries.length = 1 := by
          obtain ⟨entry, hmem, _⟩ := hnumber
          have hpos := List.length_pos_of_mem hmem
          have hle : ¬ 1 < entries.length := fun hlt => hnot ⟨⟨entry, hmem, ‹_›⟩, hlt, hvalid⟩
          omega
        obtain ⟨entry, rfl⟩ := List.length_eq_one_iff.mp hlength
        rw [List.perm_singleton.mp hperm]
      · exact mapOutcome_perm_of_valid hnodup hperm
          (fun entry hmem hkey => hnumber ⟨entry, hmem, hkey⟩) hvalid
    · simp only [not_forall] at hvalid
      obtain ⟨entry, hmem, hinvalid⟩ := hvalid
      rw [mapOutcome_of_not_valid hmem hinvalid,
        mapOutcome_of_not_valid (hperm.mem_iff.mpr hmem) hinvalid]

end

/-- A deserializer of booleans and strings to run the model with, which reads one hash. -/
def MapAccess.sample : MapAccess (Bool ⊕ String) where
  string := Sum.elim (fun _ => .error "invalid type: boolean, expected a string") .ok
  hash := Sum.elim (fun _ => .error "invalid type: boolean, expected a string") fun s =>
    if s = "0x" ++ String.ofList (List.replicate 64 '0') then .ok .zero
    else .error "invalid length"
  bool := Sum.elim .ok fun _ => .error "invalid type: string, expected a boolean"
  unread := "invalid length, expected fewer elements in map"

/-- A hash with a flag is read in both orders. -/
theorem mapOutcome_perm_iff_hash :
    let entries : List (String × (Bool ⊕ String)) := [("requireCanonical", .inl true),
      ("blockHash", .inr ("0x" ++ String.ofList (List.replicate 64 '0')))]
    mapOutcome .sample entries = some (some (.hash .zero true)) ∧ ∀ entries',
      entries'.Perm entries → mapOutcome .sample entries' = mapOutcome .sample entries := by
  intro entries
  have hnodup : (entries.map Prod.fst).Nodup := by decide
  have hkeys : ∀ entry ∈ entries, entry.1 ≠ "blockNumber" := by decide
  refine ⟨by decide, (mapOutcome_perm_iff .sample hnodup).mpr ?_⟩
  rintro ⟨⟨entry, hmem, hkey⟩, _⟩
  exact hkeys entry hmem hkey

/-- A number with a flag is refused when it comes first and read when it comes last. -/
theorem deserializeMap_order :
    deserializeMap .sample [("blockNumber", .inr "0x1"), ("requireCanonical", .inl false)] =
        some (.error "invalid length, expected fewer elements in map") ∧
      deserializeMap .sample [("requireCanonical", .inl false), ("blockNumber", .inr "0x1")] =
        some (.ok (.num 1)) :=
  ⟨rfl, rfl⟩

end BlockNumberVisitor

end Tethereum
