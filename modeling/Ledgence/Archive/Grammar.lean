import Ledgence.Cache.Operations
import Ledgence.Kit.Checked
import Ledgence.Kit.Stretches
import Ledgence.Kit.Utf8

/-! The check of a ZIP archive's central directory, and the grammar of what it accepts. Every access
to the bytes is checked: one outside of them would unwind. -/
open Kit Kit.Checked

namespace Ledgence.ZipDirectory
open ArtifactCache (Abort Bytes)

def invalid : Abort := .error (.invalid "invalid or unsupported ZIP32 directory")
def entryCount : Abort := .error (.limit "ZIP entry count")
def duplicateEntry : Abort := .error (.invalid "duplicate ZIP central-directory entry")

def endMagic : Bytes := [0x50, 0x4b, 0x05, 0x06]
def centralMagic : Bytes := [0x50, 0x4b, 0x01, 0x02]

def u16Max : Nat := 2 ^ 16 - 1

def byteAt (bytes : Bytes) (i : Nat) : Except Abort Nat :=
  okOr (bytes[i]?.map UInt8.toNat) .unwound

def u16At (bytes : Bytes) (i : Nat) : Except Abort Nat := do
  let low ← byteAt bytes i
  let high ← byteAt bytes (i + 1)
  return low + 256 * high

def u32At (bytes : Bytes) (i : Nat) : Except Abort Nat := do
  let low ← u16At bytes i
  let high ← u16At bytes (i + 2)
  return low + 65536 * high

/-- `bytes[i..]` -/
def tailAt (bytes : Bytes) (i : Nat) : Except Abort Bytes := do
  refuse (bytes.length < i) .unwound
  return bytes.drop i

/-- `bytes[i..j]` -/
def rangeAt (bytes : Bytes) (i j : Nat) : Except Abort Bytes := do
  refuse (j < i ∨ bytes.length < j) .unwound
  return stretch bytes i j

/-- An end of central directory, with its comment, stands at `i` and fills the rest. -/
def endsAt (bytes : Bytes) (i : Nat) : Except Abort Bool := do
  let rest ← tailAt bytes i
  if endMagic.isPrefixOf rest then
    let comment ← u16At bytes (i + 20)
    return i + 22 + comment = bytes.length
  else
    return false

/-- The last of the `n` places from `low` on at which the directory ends. -/
def findEnd (bytes : Bytes) (low : Nat) : Nat → Except Abort (Option Nat)
  | 0 => .ok none
  | n + 1 => do
    if ← endsAt bytes (low + n) then
      return some (low + n)
    else
      findEnd bytes low n

def checkExtra (bytes : Bytes) (cursor stop : Nat) : Except Abort Unit :=
  if cursor < stop then do
    refuse (stop < cursor + 4) invalid
    let id ← u16At bytes cursor
    refuse (id = 1) invalid
    let size ← u16At bytes (cursor + 2)
    refuse (stop < cursor + 4 + size) invalid
    checkExtra bytes (cursor + 4 + size) stop
  else
    .ok ()
termination_by stop - cursor

/-- The name of the record at `cursor`, and the place after the record. -/
def checkRecord (bytes : Bytes) (eocd cursor : Nat) : Except Abort (String × Nat) := do
  refuse ((checkedAdd u64Max cursor 46).all (eocd < ·) = true) invalid
  let rest ← tailAt bytes cursor
  refuse (¬ centralMagic.isPrefixOf rest) invalid
  let nameLen ← u16At bytes (cursor + 28)
  let extra ← u16At bytes (cursor + 30)
  let comment ← u16At bytes (cursor + 32)
  let next ← okOr (checkedAdd u64Max cursor (46 + nameLen + extra + comment)) invalid
  refuse (eocd < next) invalid
  let disk ← u16At bytes (cursor + 34)
  refuse (disk ≠ 0) invalid
  let method ← u16At bytes (cursor + 10)
  refuse (method ≠ 0 ∧ method ≠ 8) invalid
  [20, 24, 42].forM fun offset => do
    let size ← u32At bytes (cursor + offset)
    refuse (size = u32Max) invalid
  checkExtra bytes (cursor + 46 + nameLen) (cursor + 46 + nameLen + extra)
  let raw ← rangeAt bytes (cursor + 46) (cursor + 46 + nameLen)
  let name ← okOr (fromUtf8 raw) invalid
  return (String.ofList name, next)

/-- The names of `n` more records from `cursor` on, after `names`. -/
def checkRecords (bytes : Bytes) (eocd : Nat) : Nat → Nat → List String → Except Abort (List String)
  | 0, cursor, names => do
    refuse (cursor ≠ eocd) invalid
    return names
  | n + 1, cursor, names => do
    let (name, next) ← checkRecord bytes eocd cursor
    refuse (name ∈ names) duplicateEntry
    checkRecords bytes eocd n next (names ++ [name])

def checkDirectory (bytes : Bytes) (maxEntries : Nat) : Except Abort (List String) := do
  refuse (bytes.length < 22) invalid
  let low := bytes.length - (22 + u16Max)
  let found ← findEnd bytes low (bytes.length - 22 - low + 1)
  let eocd ← okOr found invalid
  let count ← u16At bytes (eocd + 10)
  let disk ← u16At bytes (eocd + 4)
  refuse (disk ≠ 0) invalid
  let directoryDisk ← u16At bytes (eocd + 6)
  refuse (directoryDisk ≠ 0) invalid
  let here ← u16At bytes (eocd + 8)
  refuse (here ≠ count) invalid
  refuse (count = u16Max) invalid
  refuse (count = 0 ∨ maxEntries < count) entryCount
  let start ← u32At bytes (eocd + 16)
  let size ← u32At bytes (eocd + 12)
  refuse (checkedAdd u64Max start size ≠ some eocd) invalid
  checkRecords bytes eocd count start []

/- The grammar. -/

/-- An end of central directory at `i` whose comment reaches exactly the end of the bytes. -/
def EndRecord (bytes : Bytes) (i : Nat) : Prop :=
  bytes.length ≤ i + 22 + u16Max ∧ endMagic <+: bytes.drop i ∧
    i + 22 + le16 bytes (i + 20) = bytes.length

inductive Blocks : Bytes → Prop
  | nil : Blocks []
  | cons (head data rest : Bytes) (head_length : head.length = 4) (id : le16 head 0 ≠ 1)
      (data_length : le16 head 2 = data.length) (others : Blocks rest) : Blocks (head ++ data ++ rest)

structure Header (header : Bytes) (name extra comment : Nat) : Prop where
  length : header.length = 46
  magic : centralMagic <+: header
  method : le16 header 10 = 0 ∨ le16 header 10 = 8
  sizes : ∀ offset ∈ [20, 24, 42], le32 header offset ≠ u32Max
  name : le16 header 28 = name
  extra : le16 header 30 = extra
  comment : le16 header 32 = comment
  disk : le16 header 34 = 0

def CentralRecord (record : Bytes) (name : String) : Prop :=
  ∃ header raw extra comment, record = header ++ (raw ++ (extra ++ comment)) ∧
    Header header raw.length extra.length comment.length ∧ Blocks extra ∧ raw = utf8 name.toList

/-- The grammar of the archives with the names `names`. -/
structure Accepts (bytes : Bytes) (maxEntries : Nat) (names : List String) : Prop where
  directory : ∃ eocd, EndRecord bytes eocd ∧ (∀ i, EndRecord bytes i → i ≤ eocd) ∧
    le16 bytes (eocd + 4) = 0 ∧ le16 bytes (eocd + 6) = 0 ∧
    le16 bytes (eocd + 8) = names.length ∧ le16 bytes (eocd + 10) = names.length ∧
    le32 bytes (eocd + 16) + le32 bytes (eocd + 12) = eocd ∧
    ∃ records, stretch bytes (le32 bytes (eocd + 16)) eocd = records.flatten ∧
      List.Forall₂ CentralRecord records names
  entries : 1 ≤ names.length ∧ names.length ≤ min maxEntries 65534
  distinct : names.Nodup

end Ledgence.ZipDirectory

/-! The directory check accepts exactly the grammar, and never reads outside of the bytes. -/

namespace Ledgence.ZipDirectory
open ArtifactCache (Abort Bytes)

def Unwinds (e : Abort) : Prop :=
  e = .unwound

@[simp] theorem not_unwinds_invalid : ¬ Unwinds invalid := by simp [Unwinds, invalid]
@[simp] theorem not_unwinds_entryCount : ¬ Unwinds entryCount := by simp [Unwinds, entryCount]
@[simp] theorem not_unwinds_duplicateEntry : ¬ Unwinds duplicateEntry := by
  simp [Unwinds, duplicateEntry]

section Reads
variable {bytes : Bytes} {i j : Nat}

theorem byteAt_inside (inside : i < bytes.length) : byteAt bytes i = .ok (byte bytes i) := by
  simp [byteAt, byte, okOr, List.getElem?_eq_getElem inside]

theorem u16At_inside (inside : i + 1 < bytes.length) : u16At bytes i = .ok (le16 bytes i) := by
  rw [u16At, byteAt_inside (by omega), byteAt_inside inside]
  rfl

theorem u32At_inside (inside : i + 3 < bytes.length) : u32At bytes i = .ok (le32 bytes i) := by
  rw [u32At, u16At_inside (by omega), u16At_inside (by omega)]
  rfl

theorem tailAt_inside (inside : i ≤ bytes.length) : tailAt bytes i = .ok (bytes.drop i) := by
  rw [tailAt, refuse, if_neg (by omega)]
  rfl

theorem rangeAt_inside (ordered : i ≤ j) (inside : j ≤ bytes.length) :
    rangeAt bytes i j = .ok (stretch bytes i j) := by
  rw [rangeAt, refuse, if_neg (by omega)]
  rfl

end Reads

section End
variable {bytes : Bytes} {i low n eocd : Nat}

theorem EndRecord.inside (h : EndRecord bytes i) : i + 22 ≤ bytes.length := by
  have whole := h.2.2
  omega

theorem endRecord_iff : EndRecord bytes i ↔ endMagic <+: bytes.drop i ∧
    i + 22 + le16 bytes (i + 20) = bytes.length := by
  have comment := le16_lt bytes (i + 20)
  simp only [EndRecord, u16Max]
  constructor
  · exact fun h => h.2
  · rintro ⟨magic, whole⟩
    exact ⟨by omega, magic, whole⟩

theorem endsAt_inside (inside : i + 22 ≤ bytes.length) :
    ∃ b, endsAt bytes i = .ok b ∧ (b = true ↔ EndRecord bytes i) := by
  rw [endsAt, tailAt_inside (by omega), ok_bind, u16At_inside (by omega), ok_bind, endRecord_iff]
  by_cases magic : endMagic.isPrefixOf (bytes.drop i) = true
  · rw [if_pos magic]
    refine ⟨_, rfl, ?_⟩
    simp only [decide_eq_true_eq, List.isPrefixOf_iff_prefix.mp magic, true_and]
  · rw [if_neg magic]
    refine ⟨_, rfl, ?_⟩
    rw [List.isPrefixOf_iff_prefix] at magic
    simp [magic]

theorem findEnd_inside (inside : low + n + 21 ≤ bytes.length) :
    ∃ found, findEnd bytes low n = .ok found ∧ ∀ e, found = some e ↔
      EndRecord bytes e ∧ low ≤ e ∧ e < low + n ∧ ∀ i, EndRecord bytes i → i < low + n → i ≤ e := by
  induction n with
  | zero => exact ⟨none, rfl, fun e => by simp; omega⟩
  | succ n ih =>
    obtain ⟨b, read, ends⟩ := @endsAt_inside bytes (low + n) (by omega)
    rw [findEnd, read, ok_bind]
    by_cases here : b = true
    · refine ⟨some (low + n), by rw [if_pos here]; rfl, fun e => ?_⟩
      have last := ends.mp here
      constructor
      · intro same
        obtain rfl := Option.some.inj same
        exact ⟨last, by omega, by omega, fun i _ before => by omega⟩
      · rintro ⟨_, _, before, greatest⟩
        have least := greatest (low + n) last (by omega)
        exact congrArg some (by omega)
    · obtain ⟨found, search, spec⟩ := ih (by omega)
      refine ⟨found, by rw [if_neg here]; exact search, fun e => ?_⟩
      have absent : ¬ EndRecord bytes (low + n) := fun last => here (ends.mpr last)
      rw [spec]
      constructor
      · rintro ⟨record, above, before, greatest⟩
        refine ⟨record, above, by omega, fun i known below => ?_⟩
        have other : i ≠ low + n := fun same => absent (same ▸ known)
        exact greatest i known (by omega)
      · rintro ⟨record, above, before, greatest⟩
        have other : e ≠ low + n := fun same => absent (same ▸ record)
        exact ⟨record, above, by omega, fun i known below => greatest i known (by omega)⟩

end End

section Extra
variable {bytes : Bytes}

/-- The next block of an extra field that ends at `stop`. -/
theorem blocks_step {cursor stop : Nat} (inside : stop ≤ bytes.length) (room : cursor + 4 ≤ stop)
    (id : le16 bytes cursor ≠ 1) (fits : cursor + 4 + le16 bytes (cursor + 2) ≤ stop)
    (others : Blocks (stretch bytes (cursor + 4 + le16 bytes (cursor + 2)) stop)) :
    Blocks (stretch bytes cursor stop) := by
  have head := stretch_append (l := bytes) (Nat.le_add_right cursor 4)
    (Nat.le_add_right (cursor + 4) (le16 bytes (cursor + 2)))
  have whole := stretch_append (l := bytes) (i := cursor) (by omega) fits
  rw [← whole, ← head]
  refine .cons _ _ _ ?_ ?_ ?_ others
  · rw [length_stretch]
    omega
  · rw [le16_stretch (by omega), Nat.add_zero]
    exact id
  · rw [le16_stretch (by omega), length_stretch]
    omega

theorem checkExtra_sound {cursor stop : Nat} (inside : stop ≤ bytes.length) (ordered : cursor ≤ stop) :
    Ensures Unwinds (checkExtra bytes cursor stop) fun _ => Blocks (stretch bytes cursor stop) := by
  by_cases more : cursor < stop
  · rw [checkExtra, if_pos more]
    simp only [ensures_bind, ensures_refuse, not_unwinds_invalid, not_false_eq_true, implies_true,
      true_and, Nat.not_lt]
    intro room
    rw [u16At_inside (by omega), ensures_ok]
    intro id
    rw [u16At_inside (by omega), ensures_ok]
    intro fits
    exact (checkExtra_sound inside fits).mono fun _ others => blocks_step inside room id fits others
  · have done : cursor = stop := by omega
    rw [checkExtra, if_neg more, ensures_ok, done, stretch_self]
    exact .nil
termination_by stop - cursor

theorem checkExtra_complete {extra : Bytes} (blocks : Blocks extra) {cursor stop : Nat}
    (inside : stop ≤ bytes.length) (here : stretch bytes cursor stop = extra) (ordered : cursor ≤ stop) :
    checkExtra bytes cursor stop = .ok () := by
  induction blocks generalizing cursor with
  | nil =>
    have empty := congrArg List.length here
    rw [length_stretch, List.length_nil] at empty
    rw [checkExtra, if_neg (by omega)]
  | cons head data rest head_length id data_length others ih =>
    have lengths := congrArg List.length here
    rw [length_stretch, List.length_append, List.length_append, head_length] at lengths
    obtain ⟨block, rest_here⟩ := stretch_eq_append inside here
    rw [List.length_append, head_length] at block rest_here
    obtain ⟨head_here, _⟩ := stretch_eq_append (by omega) block
    rw [head_length] at head_here
    have first : le16 bytes cursor = le16 head 0 := by rw [← head_here, le16_stretch (by omega)]; rfl
    have second : le16 bytes (cursor + 2) = le16 head 2 := by rw [← head_here, le16_stretch (by omega)]
    rw [checkExtra, if_pos (by omega)]
    simp only [bind_eq_ok, refuse_eq_ok, exists_unit]
    refine ⟨by omega, _, u16At_inside (by omega), by rw [first]; exact id, _,
      u16At_inside (by omega), by omega, ?_⟩
    rw [second, data_length, Nat.add_assoc]
    exact ih rest_here (by omega)

end Extra

section Record
variable {bytes : Bytes} {eocd cursor next : Nat} {name : String}

/-- The record at `cursor` as its fields stand there. -/
structure RecordAt (bytes : Bytes) (eocd cursor : Nat) (name : String) (next : Nat) : Prop where
  header : Header (stretch bytes cursor (cursor + 46)) (le16 bytes (cursor + 28))
    (le16 bytes (cursor + 30)) (le16 bytes (cursor + 32))
  stop : cursor + 46 + le16 bytes (cursor + 28) + le16 bytes (cursor + 30) +
    le16 bytes (cursor + 32) = next
  inside : next ≤ eocd
  extra : Blocks (stretch bytes (cursor + 46 + le16 bytes (cursor + 28))
    (cursor + 46 + le16 bytes (cursor + 28) + le16 bytes (cursor + 30)))
  name : stretch bytes (cursor + 46) (cursor + 46 + le16 bytes (cursor + 28)) = utf8 name.toList

theorem RecordAt.central (h : RecordAt bytes eocd cursor name next) (inside : eocd ≤ bytes.length) :
    CentralRecord (stretch bytes cursor next) name := by
  have stop := h.stop
  have bound := h.inside
  refine ⟨stretch bytes cursor (cursor + 46), _, _,
    stretch bytes (cursor + 46 + le16 bytes (cursor + 28) + le16 bytes (cursor + 30)) next,
    ?_, ?_, h.extra, h.name⟩
  · rw [stretch_append (by omega) (by omega), stretch_append (by omega) (by omega),
      stretch_append (by omega) (by omega)]
  · have lengths : ∀ n k, cursor + 46 + n + k ≤ eocd →
        (stretch bytes (cursor + 46 + n) (cursor + 46 + n + k)).length = k := by
      intro n k fits
      rw [length_stretch]
      omega
    have comment := lengths (le16 bytes (cursor + 28) + le16 bytes (cursor + 30))
      (le16 bytes (cursor + 32)) (by omega)
    have raw := lengths 0 (le16 bytes (cursor + 28)) (by omega)
    rw [← Nat.add_assoc, stop] at comment
    rw [Nat.add_zero] at raw
    rw [raw, lengths _ _ (by omega), comment]
    exact h.header

theorem recordAt_of_central (inside : eocd ≤ bytes.length) (before : next ≤ eocd)
    (central : CentralRecord (stretch bytes cursor next) name) :
    RecordAt bytes eocd cursor name next := by
  obtain ⟨header, raw, extra, comment, parts, fields, blocks, utf8_name⟩ := central
  have lengths := congrArg List.length parts
  have size := fields.length
  rw [length_stretch, List.length_append, List.length_append, List.length_append, size] at lengths
  obtain ⟨header_here, rest⟩ := stretch_eq_append (by omega) parts
  rw [size] at header_here rest
  obtain ⟨raw_here, rest'⟩ := stretch_eq_append (by omega) rest
  obtain ⟨extra_here, _⟩ := stretch_eq_append (by omega) rest'
  have name_field : le16 bytes (cursor + 28) = raw.length := by
    rw [← fields.name, ← header_here, le16_stretch (by omega)]
  have extra_field : le16 bytes (cursor + 30) = extra.length := by
    rw [← fields.extra, ← header_here, le16_stretch (by omega)]
  have comment_field : le16 bytes (cursor + 32) = comment.length := by
    rw [← fields.comment, ← header_here, le16_stretch (by omega)]
  constructor
  · rw [name_field, extra_field, comment_field, header_here]
    exact fields
  · omega
  · exact before
  · rw [name_field, extra_field, extra_here]
    exact blocks
  · rw [name_field, raw_here, utf8_name]

theorem checkSizes_inside (room : cursor + 46 ≤ bytes.length) :
    (([20, 24, 42] : List Nat).forM fun offset => do
      let size ← u32At bytes (cursor + offset)
      refuse (size = u32Max) invalid) =
    refuse (¬ ∀ offset ∈ ([20, 24, 42] : List Nat), le32 bytes (cursor + offset) ≠ u32Max) invalid := by
  simp only [List.forM_eq_forM, List.forM_cons, List.forM_nil]
  rw [u32At_inside (by omega), u32At_inside (by omega), u32At_inside (by omega)]
  simp only [ok_bind, refuse, List.forall_mem_cons]
  by_cases a : le32 bytes (cursor + 20) = u32Max
  · simp [a]
  · by_cases b : le32 bytes (cursor + 24) = u32Max
    · simp [a, b]
    · by_cases c : le32 bytes (cursor + 42) = u32Max
      · simp [a, b, c]
      · simp [a, b, c, pure, Except.pure]

/-- The header at `cursor`, read in place. -/
theorem header_iff (room : cursor + 46 ≤ bytes.length) :
    Header (stretch bytes cursor (cursor + 46)) (le16 bytes (cursor + 28)) (le16 bytes (cursor + 30))
        (le16 bytes (cursor + 32)) ↔
      centralMagic <+: bytes.drop cursor ∧
      (le16 bytes (cursor + 10) = 0 ∨ le16 bytes (cursor + 10) = 8) ∧
      (∀ offset ∈ [20, 24, 42], le32 bytes (cursor + offset) ≠ u32Max) ∧
      le16 bytes (cursor + 34) = 0 := by
  have field : ∀ o, o + 2 ≤ 46 → le16 (stretch bytes cursor (cursor + 46)) o = le16 bytes (cursor + o) :=
    fun o fits => le16_stretch (by omega)
  have sizes : (∀ offset ∈ [20, 24, 42], le32 (stretch bytes cursor (cursor + 46)) offset ≠ u32Max) ↔
      ∀ offset ∈ [20, 24, 42], le32 bytes (cursor + offset) ≠ u32Max := by
    refine forall₂_congr fun o mem => ?_
    have bound : o ≤ 42 := by
      simp only [List.mem_cons, List.not_mem_nil, or_false] at mem
      omega
    rw [le32_stretch (by omega)]
  have magic : centralMagic <+: stretch bytes cursor (cursor + 46) ↔ centralMagic <+: bytes.drop cursor :=
    prefix_stretch (by simp [centralMagic])
  constructor
  · intro h
    have method := h.method
    have disk := h.disk
    rw [field _ (by omega)] at method disk
    exact ⟨magic.mp h.magic, method, sizes.mp h.sizes, disk⟩
  · rintro ⟨first, method, some, disk⟩
    refine ⟨by rw [length_stretch]; omega, magic.mpr first, ?_, sizes.mpr some, field _ (by omega),
      field _ (by omega), field _ (by omega), ?_⟩
    · rw [field _ (by omega)]
      exact method
    · rw [field _ (by omega)]
      exact disk

theorem checkRecord_sound (inside : eocd ≤ bytes.length) :
    Ensures Unwinds (checkRecord bytes eocd cursor) fun r => RecordAt bytes eocd cursor r.1 r.2 := by
  rw [checkRecord]
  simp only [ensures_bind, ensures_refuse, not_unwinds_invalid, not_false_eq_true, implies_true,
    true_and, ensures_okOr, ensures_pure, checkedAdd_eq_some]
  intro room
  have room : cursor + 46 ≤ eocd := by
    simp only [Option.all_eq_true, checkedAdd_eq_some, decide_eq_true_eq] at room
    push Not at room
    obtain ⟨n, ⟨_, rfl⟩, fits⟩ := room
    exact fits
  rw [tailAt_inside (by omega), ensures_ok]
  intro magic
  rw [u16At_inside (by omega), ensures_ok, u16At_inside (by omega), ensures_ok,
    u16At_inside (by omega), ensures_ok]
  rintro next ⟨_, stop⟩ before
  rw [u16At_inside (by omega), ensures_ok]
  intro disk
  rw [u16At_inside (by omega), ensures_ok]
  intro method
  rw [checkSizes_inside (by omega), ensures_refuse]
  refine ⟨fun _ => not_unwinds_invalid, fun sizes => ?_⟩
  refine (checkExtra_sound (by omega) (by omega)).mono fun _ extra => ?_
  rw [rangeAt_inside (by omega) (by omega), ensures_ok]
  intro name decoded
  simp only [Decidable.not_not, List.isPrefixOf_iff_prefix] at magic
  rw [Decidable.not_not] at sizes
  push Not at method disk
  exact {
    header := (header_iff (by omega)).mpr ⟨magic, by omega, sizes, disk⟩
    stop := by omega
    inside := by omega
    extra := extra
    name := by
      rw [fromUtf8_eq_some_iff.mp decoded, String.toList_ofList] }

theorem checkRecord_complete (inside : eocd ≤ bytes.length) (small : eocd ≤ u64Max)
    (h : RecordAt bytes eocd cursor name next) : checkRecord bytes eocd cursor = .ok (name, next) := by
  have stop := h.stop
  have before := h.inside
  obtain ⟨magic, method, sizes, disk⟩ := (header_iff (by omega)).mp h.header
  have decoded : fromUtf8 (stretch bytes (cursor + 46) (cursor + 46 + le16 bytes (cursor + 28))) =
      some name.toList := fromUtf8_eq_some_iff.mpr h.name
  rw [checkRecord, tailAt_inside (by omega), u16At_inside (by omega), u16At_inside (by omega),
    u16At_inside (by omega), u16At_inside (by omega), u16At_inside (by omega)]
  simp only [bind_eq_ok, refuse_eq_ok, exists_unit, okOr_eq_ok, checkedAdd_eq_some, Except.ok.injEq,
    exists_eq_left']
  refine ⟨?_, ?_, next, ⟨by omega, by omega⟩, by omega, by omega, by omega, ?_, ?_, _,
    rangeAt_inside (by omega) (by omega), _, decoded, ?_⟩
  · rw [checkedAdd, if_pos (by omega)]
    simp only [Option.all_some, decide_eq_true_eq]
    omega
  · simpa using magic
  · rw [checkSizes_inside (by omega), refuse_eq_ok, Decidable.not_not]
    exact sizes
  · exact checkExtra_complete h.extra (by omega) rfl (by omega)
  · rw [String.ofList_toList]
    rfl

end Record
section Records
variable {bytes : Bytes} {eocd : Nat}

theorem checkRecords_sound (inside : eocd ≤ bytes.length) {n cursor : Nat} {names : List String}
    (distinct : names.Nodup) :
    Ensures Unwinds (checkRecords bytes eocd n cursor names) fun all => cursor ≤ eocd ∧ all.Nodup ∧
      ∃ rest records, all = names ++ rest ∧ rest.length = n ∧
        stretch bytes cursor eocd = records.flatten ∧ List.Forall₂ CentralRecord records rest := by
  induction n generalizing cursor names with
  | zero =>
    simp only [checkRecords, ensures_bind, ensures_refuse, ensures_pure, not_unwinds_invalid,
      not_false_eq_true, implies_true, true_and, Decidable.not_not]
    rintro rfl
    exact ⟨Nat.le_refl _, distinct, [], [], by simp, rfl, by rw [stretch_self]; rfl, .nil⟩
  | succ n ih =>
    rw [checkRecords, ensures_bind]
    refine (checkRecord_sound inside).mono fun found here => ?_
    obtain ⟨name, next⟩ := found
    simp only [ensures_bind, ensures_refuse, not_unwinds_duplicateEntry, not_false_eq_true,
      implies_true, true_and]
    intro fresh
    have distinct' : (names ++ [name]).Nodup :=
      distinct.append (by simp) (by simpa [List.disjoint_singleton] using fresh)
    refine (ih distinct').mono fun all after => ?_
    obtain ⟨before, nodup, rest, records, whole, count, flat, each⟩ := after
    have stop := here.stop
    have bound := here.inside
    refine ⟨by omega, nodup, name :: rest, stretch bytes cursor next :: records, by simp [whole],
      by simp [count], ?_, .cons (here.central inside) each⟩
    rw [List.flatten_cons, ← flat, stretch_append (by omega) (by omega)]

theorem checkRecords_complete (inside : eocd ≤ bytes.length) (small : eocd ≤ u64Max)
    {records : List Bytes} {rest : List String} (each : List.Forall₂ CentralRecord records rest)
    {cursor : Nat} {names : List String} (ordered : cursor ≤ eocd)
    (flat : stretch bytes cursor eocd = records.flatten) (distinct : (names ++ rest).Nodup) :
    checkRecords bytes eocd rest.length cursor names = .ok (names ++ rest) := by
  induction each generalizing cursor names with
  | nil =>
    have empty := congrArg List.length flat
    rw [length_stretch, List.flatten_nil, List.length_nil] at empty
    have done : cursor = eocd := by omega
    simp [checkRecords, done, refuse, pure, Except.pure]
  | @cons record name records rest first others ih =>
    have lengths := congrArg List.length flat
    rw [length_stretch, List.flatten_cons, List.length_append] at lengths
    obtain ⟨record_here, rest_here⟩ := stretch_eq_append inside flat
    rw [← record_here] at first
    have found := checkRecord_complete inside small (recordAt_of_central inside (by omega) first)
    have fresh : name ∉ names := by
      intro mem
      exact (List.nodup_append.mp distinct).2.2 name mem name (by simp) rfl
    have moved : names ++ name :: rest = names ++ [name] ++ rest := by simp
    rw [moved] at distinct ⊢
    rw [List.length_cons, checkRecords, found, ok_bind]
    simp only [refuse, if_neg fresh, ok_bind]
    exact ih (by omega) rest_here distinct

end Records

section Directory
variable {bytes : Bytes} {maxEntries : Nat} {names : List String}

theorem findEnd_last (long : 22 ≤ bytes.length) : ∃ found,
    findEnd bytes (bytes.length - (22 + u16Max))
      (bytes.length - 22 - (bytes.length - (22 + u16Max)) + 1) = .ok found ∧
    ∀ e, found = some e ↔ EndRecord bytes e ∧ ∀ i, EndRecord bytes i → i ≤ e := by
  obtain ⟨found, search, spec⟩ := @findEnd_inside bytes (bytes.length - (22 + u16Max))
    (bytes.length - 22 - (bytes.length - (22 + u16Max)) + 1) (by omega)
  refine ⟨found, search, fun e => (spec e).trans ?_⟩
  have places : ∀ i, EndRecord bytes i → bytes.length - (22 + u16Max) ≤ i ∧
      i < bytes.length - (22 + u16Max) + (bytes.length - 22 - (bytes.length - (22 + u16Max)) + 1) := by
    intro i known
    have last := known.inside
    have first := known.1
    omega
  constructor
  · rintro ⟨record, _, _, greatest⟩
    exact ⟨record, fun i known => greatest i known (places i known).2⟩
  · rintro ⟨record, greatest⟩
    exact ⟨record, (places e record).1, (places e record).2, fun i known _ => greatest i known⟩

theorem checkDirectory_sound :
    Ensures Unwinds (checkDirectory bytes maxEntries) (Accepts bytes maxEntries) := by
  by_cases short : bytes.length < 22
  · rw [checkDirectory, refuse, if_pos short]
    exact not_unwinds_invalid
  obtain ⟨found, search, spec⟩ := @findEnd_last bytes (by omega)
  rw [checkDirectory, refuse, if_neg short, ok_bind]
  dsimp only
  rw [search, ok_bind]
  simp only [ensures_bind, ensures_refuse, ensures_okOr, not_unwinds_invalid, not_false_eq_true,
    implies_true, true_and]
  intro eocd last
  obtain ⟨record, greatest⟩ := (spec eocd).mp last
  have inside := record.inside
  rw [u16At_inside (by omega), ensures_ok, u16At_inside (by omega), ensures_ok]
  intro disk
  rw [u16At_inside (by omega), ensures_ok]
  intro directoryDisk
  rw [u16At_inside (by omega), ensures_ok]
  intro counts most
  simp only [not_unwinds_entryCount, not_false_eq_true, implies_true, true_and]
  intro entries
  rw [u32At_inside (by omega), ensures_ok, u32At_inside (by omega), ensures_ok]
  intro start
  simp only [Decidable.not_not, checkedAdd_eq_some] at start disk directoryDisk counts
  refine (checkRecords_sound (by omega) List.nodup_nil).mono fun names after => ?_
  obtain ⟨_, distinct, rest, records, whole, count, flat, each⟩ := after
  rw [List.nil_append] at whole
  subst whole
  have bound := le16_lt bytes (eocd + 10)
  simp only [u16Max] at most
  exact {
    directory := ⟨eocd, record, greatest, disk, directoryDisk, by omega, by omega, start.2, records,
      flat, each⟩
    entries := by omega
    distinct }

theorem checkDirectory_complete (h : Accepts bytes maxEntries names) :
    checkDirectory bytes maxEntries = .ok names := by
  obtain ⟨eocd, record, greatest, disk, directoryDisk, here, count, start, records, flat, each⟩ :=
    h.directory
  have entries := h.entries
  have inside := record.inside
  have low := le32_lt bytes (eocd + 16)
  have size := le32_lt bytes (eocd + 12)
  have small : eocd ≤ u64Max := by
    simp only [u64Max]
    omega
  obtain ⟨found, search, spec⟩ := @findEnd_last bytes (by omega)
  have last : found = some eocd := (spec eocd).mpr ⟨record, greatest⟩
  rw [checkDirectory]
  simp only [bind_eq_ok, refuse_eq_ok, exists_unit, okOr_eq_ok, Decidable.not_not]
  refine ⟨by omega, found, search, eocd, last, ?_⟩
  rw [u16At_inside (by omega), u16At_inside (by omega), u16At_inside (by omega),
    u16At_inside (by omega), u32At_inside (by omega), u32At_inside (by omega)]
  simp only [Except.ok.injEq, exists_eq_left', checkedAdd_eq_some, u16Max]
  refine ⟨disk, directoryDisk, by omega, by omega, by omega, ⟨by omega, start⟩, ?_⟩
  rw [count]
  exact checkRecords_complete (by omega) small each (by omega) flat h.distinct

/-- Exactly the grammar is accepted, with the names in order, and no byte outside is ever read. -/
theorem directory_exact (bytes : Bytes) (maxEntries : Nat) :
    (∀ names, checkDirectory bytes maxEntries = .ok names ↔ Accepts bytes maxEntries names) ∧
    checkDirectory bytes maxEntries ≠ .error .unwound := by
  refine ⟨fun names => ⟨fun accepted => checkDirectory_sound.ok accepted, checkDirectory_complete⟩, ?_⟩
  intro unwound
  exact checkDirectory_sound.error unwound rfl

end Directory
end Ledgence.ZipDirectory
