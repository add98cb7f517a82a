import BdmAssault.Smb.Codec

/-! # String fields

`setStringField` and `getStringField` of `smb.c`, for both settings of the Unicode capability.
-/

namespace BdmAssault.Smb.Codec

/-! ## The fields -/

/-- The string in front of the terminator. -/
def cstr : List UInt8 → Option (List UInt8)
  | [] => none
  | b :: rest => if b = 0 then some [] else (cstr rest).map (b :: ·)

/-- `strcpy`, with the length of the string and its terminator. -/
def strcpy (mem : List UInt8) : Option Written :=
  (cstr mem).map fun s => ⟨s ++ [0], s.length + 1⟩

/-- `strncpy` fills up with zeros. -/
def strncpy : Nat → List UInt8 → Option (List UInt8)
  | 0, _ => some []
  | _ + 1, [] => none
  | n + 1, b :: rest =>
      if b = 0 then some (List.replicate (n + 1) 0) else (strncpy n rest).map (b :: ·)

def setStringField (unicode : Bool) (mem : List UInt8) : Option Written :=
  if unicode then (asciiToUtf16 mem).map Decoded.toWritten else strcpy mem

/-- A `u32` as an `int`. -/
def signed (n : Nat) : Int := if n < 2147483648 then n else n - 4294967296

/-- `inbytes` is an `int`, given as the `u32` that `strncpy` takes it for. -/
def getStringField (unicode : Bool) (mem : List UInt8) (inbytes : Nat) : Option Written :=
  if unicode then utf16ToAscii mem (signed inbytes)
  else if inbytes ≠ 0 then do
    let copied ← strncpy inbytes mem
    let out := copied ++ [0]
    let s ← cstr out
    return ⟨out, s.length + 1⟩
  else strcpy mem

/-! ## Round trips -/

/-- What a caller passes for the length of a field. -/
inductive Convention where
  | zero
  | whole
  | bare
deriving DecidableEq, Repr

/-- Nothing, the length with the terminator, or the length without it. -/
def Convention.inbytes (unicode : Bool) (len : Nat) : Convention → Nat
  | .zero => 0
  | .whole => len
  | .bare => len - if unicode then 2 else 1

/-- Well-formed UTF-8, or bytes of any code page, without a terminator in them. -/
def Representable (unicode : Bool) (s : List UInt8) : Prop :=
  if unicode then
    ∃ chars : List Char, (∀ c ∈ chars, c ≠ '\x00') ∧ s = chars.flatMap String.utf8EncodeChar
  else 0 ∉ s

/-- The string of a field is the one that was put there, whatever is in the memory behind. -/
def RoundTrips (unicode : Bool) (convention : Convention) (s after behind : List UInt8) : Prop :=
  ∃ f w, setStringField unicode (s ++ 0 :: after) = some f ∧
    getStringField unicode (f.out ++ behind) (convention.inbytes unicode f.len) = some w ∧
    cstr w.out = some s ∧ w.len = s.length + 1

section Copies

variable {s : List UInt8}

theorem cstr_append (hs : 0 ∉ s) (rest : List UInt8) : cstr (s ++ 0 :: rest) = some s := by
  induction s with
  | nil => rfl
  | cons b s ih =>
      have hb : b ≠ 0 := fun hzero => hs (hzero ▸ List.mem_cons_self)
      rw [List.cons_append, cstr, if_neg hb, ih fun hmem => hs (List.mem_cons_of_mem _ hmem)]
      rfl

theorem strcpy_append (hs : 0 ∉ s) (rest : List UInt8) :
    strcpy (s ++ 0 :: rest) = some ⟨s ++ [0], s.length + 1⟩ := by
  unfold strcpy
  rw [cstr_append hs]
  rfl

/-- A string that is followed by a zero byte, or that fills the count. -/
theorem strncpy_append (hs : 0 ∉ s) (n : Nat) (rest : List UInt8) :
    strncpy (s.length + n) (s ++ 0 :: rest) = some (s ++ List.replicate n 0) := by
  induction s with
  | nil =>
      rw [List.length_nil, Nat.zero_add]
      cases n with
      | zero => rfl
      | succ n => rfl
  | cons b s ih =>
      have hb : b ≠ 0 := fun hzero => hs (hzero ▸ List.mem_cons_self)
      rw [List.length_cons, Nat.add_right_comm, List.cons_append, strncpy, if_neg hb,
        ih fun hmem => hs (List.mem_cons_of_mem _ hmem)]
      rfl

theorem getStringField_strncpy {mem copied : List UInt8} {n : Nat} (hn : n ≠ 0)
    (hcopied : strncpy n mem = some copied) (hcstr : cstr (copied ++ [0]) = some s) :
    getStringField false mem n = some ⟨copied ++ [0], s.length + 1⟩ := by
  unfold getStringField
  rw [if_neg (by decide), if_pos hn, hcopied]
  show (cstr (copied ++ [0])).bind _ = _
  rw [hcstr]
  rfl

/-- In the code page every convention works. -/
theorem round_trips_bytes (convention : Convention) (after behind : List UInt8) (hs : 0 ∉ s) :
    RoundTrips false convention s after behind := by
  have hset : setStringField false (s ++ 0 :: after) = some ⟨s ++ [0], s.length + 1⟩ :=
    strcpy_append hs after
  have hmem : (s ++ [0]) ++ behind = s ++ 0 :: behind := by rw [List.append_assoc]; rfl
  have hcstr := cstr_append hs []
  have hcopy : getStringField false ((s ++ [0]) ++ behind) 0 = some ⟨s ++ [0], s.length + 1⟩ := by
    rw [hmem]
    exact strcpy_append hs behind
  cases convention with
  | zero => exact ⟨_, _, hset, hcopy, hcstr, rfl⟩
  | whole =>
      have htwice : cstr (s ++ List.replicate 1 0 ++ [0]) = some s := by
        rw [List.append_assoc]
        exact cstr_append hs [0]
      refine ⟨_, _, hset, getStringField_strncpy (Nat.succ_ne_zero _) ?_ htwice, htwice, rfl⟩
      rw [hmem]
      exact strncpy_append hs 1 behind
  | bare =>
      by_cases hempty : s = []
      · subst hempty
        exact ⟨_, _, hset, hcopy, hcstr, rfl⟩
      · have hcopied := strncpy_append hs 0 behind
        rw [Nat.add_zero, List.replicate_zero, List.append_nil, ← hmem] at hcopied
        have hpos := List.length_pos_of_ne_nil hempty
        exact ⟨_, _, hset, getStringField_strncpy (Nat.ne_of_gt hpos) hcopied hcstr, hcstr, rfl⟩

end Copies

section Unicode

variable {s : List UInt8}

/-- The bytes of a sequence: one below 0x80, or more from 0x80 on. -/
theorem utf8_mem {wc : Nat} {b : UInt8} (hwc : wc < 65536) (hb : b ∈ utf8 wc) :
    b.toNat = wc ∧ wc < 0x80 ∨ 0x80 ≤ b.toNat ∧ b.toNat < 0xf0 := by
  unfold utf8 at hb
  split at hb
  · obtain rfl := List.mem_singleton.mp hb
    exact Or.inl ⟨toNat_ofNat_lt (by omega), ‹_›⟩
  · right
    split at hb
    · rw [List.mem_pair] at hb
      obtain rfl | rfl := hb
      · rw [toNat_ofNat_lt (by omega)]
        omega
      · rw [toNat_ofNat_lt (by omega)]
        omega
    · rw [List.mem_cons, List.mem_pair] at hb
      obtain rfl | rfl | rfl := hb
      · rw [toNat_ofNat_lt (by omega)]
        omega
      · rw [toNat_ofNat_lt (by omega)]
        omega
      · rw [toNat_ofNat_lt (by omega)]
        omega

/-- Any two bytes are a unit. -/
theorem exists_le16 (lo hi : UInt8) : ∃ wc < 65536, ∀ rest, lo :: hi :: rest = unitBytes wc ++ rest := by
  have hlo := lo.toNat_lt
  have hhi := hi.toNat_lt
  refine ⟨lo.toNat + 256 * hi.toNat, by omega, fun rest => ?_⟩
  have hlow : (lo.toNat + 256 * hi.toNat) % 256 = lo.toNat := by omega
  have hhigh : (lo.toNat + 256 * hi.toNat) / 2 ^ 8 % 256 = hi.toNat := by omega
  unfold unitBytes
  rw [and_ff, and_ff, Nat.shiftRight_eq_div_pow, hlow, hhigh, UInt8.ofNat_toNat, UInt8.ofNat_toNat]
  rfl

/-- Less than a unit is left of the memory. -/
theorem utf16ToAscii_end {mem : List UInt8} {inbytes : Int} {w : Written} (hmem : mem.tail = [])
    (h : utf16ToAscii mem inbytes = some w) : w = ⟨[0], 1⟩ := by
  match mem, hmem with
  | [], _ | [_], _ =>
      rw [utf16ToAscii.eq_def] at h
      dsimp only at h
      split at h
      · exact (Option.some.inj h).symm
      · cases h

/-- Whatever it is given, `utf16ToAscii` writes sequences of up to three bytes. -/
theorem utf16ToAscii_lt_240 : ∀ (mem : List UInt8) (inbytes : Int) {w : Written},
    utf16ToAscii mem inbytes = some w → ∀ b ∈ w.out, b.toNat < 0xf0
  | lo :: hi :: rest, inbytes, w, h, b, hb => by
      obtain ⟨wc, hwc, hmem⟩ := exists_le16 lo hi
      rw [hmem] at h
      by_cases hstop : inbytes < 2 ∨ wc = 0
      · rw [utf16ToAscii_stop hstop] at h
        cases h
        obtain rfl := List.mem_singleton.mp hb
        decide
      · rw [utf16ToAscii_unit (by omega) hwc (by omega)] at h
        obtain ⟨w', hw', rfl⟩ := Option.map_eq_some_iff.mp h
        obtain hunit | hrest := List.mem_append.mp hb
        · have hrange := utf8_mem hwc hunit
          omega
        · exact utf16ToAscii_lt_240 rest _ hw' b hrest
  | [], inbytes, w, h, b, hb => by
      obtain rfl := utf16ToAscii_end rfl h
      obtain rfl := List.mem_singleton.mp hb
      decide
  | [_], inbytes, w, h, b, hb => by
      obtain rfl := utf16ToAscii_end rfl h
      obtain rfl := List.mem_singleton.mp hb
      decide

theorem mem_of_cstr : ∀ {mem s : List UInt8}, cstr mem = some s → ∀ b ∈ s, b ∈ mem
  | c :: mem, s, h, b, hb => by
      rw [cstr] at h
      split at h
      · cases h
        cases hb
      · obtain ⟨t, ht, rfl⟩ := Option.map_eq_some_iff.mp h
        obtain rfl | hmem := List.mem_cons.mp hb
        · exact List.mem_cons_self
        · exact List.mem_cons_of_mem _ (mem_of_cstr ht b hmem)

/-- A character beyond the basic plane shows in its first byte. -/
theorem basic_of_lt_240 {c : Char} (hc : c ≠ '\x00')
    (h : ∀ b ∈ String.utf8EncodeChar c, b.toNat < 0xf0) : Basic c := by
  refine ⟨hc, UInt32.lt_iff_toNat_lt.mpr ?_⟩
  show c.val.toNat < 65536
  by_contra hlarge
  have hfour := h (UInt8.ofNat (c.val.toNat / 262144 % 8 + 0xf0))
  rw [toNat_ofNat_lt (by omega)] at hfour
  refine absurd (hfour ?_) (by omega)
  unfold String.utf8EncodeChar
  dsimp only
  rw [if_neg (by omega), if_neg (by omega), if_neg (by omega)]
  exact List.mem_cons_self

theorem text_length_ge (u : List UInt16) : u.length ≤ (text u).length := by
  induction u with
  | nil => exact Nat.le_refl _
  | cons wc u ih =>
      have hone : 0 < (utf8 wc.toNat).length := by
        unfold utf8
        split
        · exact Nat.one_pos
        · split <;> exact Nat.succ_pos _
      show u.length + 1 ≤ (utf8 wc.toNat ++ text u).length
      rw [List.length_append]
      omega

theorem zero_notMem_utf8 {wc : Nat} (hpos : 0 < wc) (hwc : wc < 65536) : 0 ∉ utf8 wc := by
  intro hzero
  have hrange := utf8_mem hwc hzero
  rw [show (0 : UInt8).toNat = 0 from rfl] at hrange
  omega

theorem zero_notMem_text {u : List UInt16} (hu : 0 ∉ u) : 0 ∉ text u := by
  intro hmem
  obtain ⟨wc, hwc, hzero⟩ := List.mem_flatMap.mp hmem
  exact zero_notMem_utf8 (toNat_pos_of_mem hu hwc) wc.toNat_lt hzero

theorem utf16ToAscii_nothing (mem : List UInt8) : utf16ToAscii mem 0 = some ⟨[0], 1⟩ := by
  match mem with
  | [] | [_] | _ :: _ :: _ => rfl

/-- The field is given back unless its length is left to the terminator. -/
theorem round_trips_units {u : List UInt16} (convention : Convention) (after behind : List UInt8)
    (hu : 0 ∉ u) (hsize : 2 * u.length + 2 < 2147483648) :
    RoundTrips true convention (text u) after behind ↔ (convention = .zero → text u = []) := by
  have hset : setStringField true (text u ++ 0 :: after) =
      some ⟨units u ++ [0, 0], 2 * u.length + 2⟩ := by
    show (asciiToUtf16 (text u ++ 0 :: after)).map Decoded.toWritten = _
    rw [asciiToUtf16_text hu]
    rfl
  have hmem : (units u ++ [0, 0]) ++ behind = units u ++ 0 :: 0 :: behind := by
    rw [List.append_assoc]
    rfl
  have hback : ∀ n : Nat, n = 2 * u.length ∨ n = 2 * u.length + 2 →
      getStringField true ((units u ++ [0, 0]) ++ behind) n =
        some ⟨text u ++ [0], (text u).length + 1⟩ := by
    intro n hn
    have hsigned : signed n = n := if_pos (by omega)
    show utf16ToAscii _ (signed n) = _
    rw [hmem, hsigned, utf16ToAscii_field hu hn]
  have hcstr := cstr_append (zero_notMem_text hu) []
  cases convention with
  | zero =>
      have hempty : getStringField true ((units u ++ [0, 0]) ++ behind) 0 = some ⟨[0], 1⟩ :=
        utf16ToAscii_nothing _
      constructor
      · rintro ⟨f, w, hf, hw, hs, -⟩ -
        obtain rfl := Option.some.inj (hset.symm.trans hf)
        obtain rfl := Option.some.inj (hempty.symm.trans hw)
        exact (Option.some.inj hs).symm
      · intro htext
        rw [htext rfl] at hset ⊢
        exact ⟨_, _, hset, hempty, rfl, rfl⟩
  | whole => exact iff_of_true ⟨_, _, hset, hback _ (Or.inr rfl), hcstr, rfl⟩ nofun
  | bare => exact iff_of_true ⟨_, _, hset, hback _ (Or.inl rfl), hcstr, rfl⟩ nofun

end Unicode

/-- A field gives its string back, except that in Unicode an `inbytes` of 0 loses every string
that is not empty, and characters of four bytes are replaced. -/
theorem string_field_round_trip_iff {unicode : Bool} {s : List UInt8} (convention : Convention)
    (after behind : List UInt8) (hs : Representable unicode s) (hsize : s.length < 1073741823) :
    RoundTrips unicode convention s after behind ↔
      (unicode = true → (convention = .zero → s = []) ∧ ∀ b ∈ s, b.toNat < 0xf0) := by
  cases unicode with
  | false => exact iff_of_true (round_trips_bytes convention after behind hs) nofun
  | true =>
      obtain ⟨chars, hchars, rfl⟩ := hs
      by_cases hplane : ∀ b ∈ chars.flatMap String.utf8EncodeChar, b.toNat < 0xf0
      · have hbasic : ∀ c ∈ chars, Basic c := fun c hc =>
          basic_of_lt_240 (hchars c hc) fun b hb => hplane b (List.mem_flatMap.mpr ⟨c, hc, hb⟩)
        have hlen := text_length_ge (codeUnits chars)
        rw [text_codeUnits hbasic] at hlen
        have hunits := @round_trips_units (codeUnits chars) convention after behind
          (zero_notMem_codeUnits hbasic) (by omega)
        rw [text_codeUnits hbasic] at hunits
        exact hunits.trans ⟨fun h _ => ⟨h, hplane⟩, fun h => (h rfl).1⟩
      · refine iff_of_false ?_ fun h => hplane (h rfl).2
        rintro ⟨f, w, -, hw, hcstr, -⟩
        exact hplane fun b hb => utf16ToAscii_lt_240 _ _ hw b (mem_of_cstr hcstr b hb)

theorem representable_ascii : Representable true [0x41] := ⟨['A'], by simp, rfl⟩

/-- The length in bytes, as the directory listing passes it. -/
theorem string_field_round_trip_bare : Representable true [0x41] ∧
    RoundTrips true .bare [0x41] [] [] := by
  refine ⟨representable_ascii, ?_⟩
  exact (string_field_round_trip_iff .bare [] [] representable_ascii (by simp)).mpr
    fun _ => ⟨nofun, by simp⟩

/-- A domain name of one letter, with the 0 that the negotiation passes, comes back empty. -/
theorem domain_name_lost : Representable true [0x41] ∧
    setStringField true [0x41, 0] = some ⟨[0x41, 0, 0, 0], 4⟩ ∧
    getStringField true [0x41, 0, 0, 0] 0 = some ⟨[0], 1⟩ ∧
    ¬RoundTrips true .zero [0x41] [] [] := by
  have hset : setStringField true [0x41, 0] = some ⟨[0x41, 0, 0, 0], 4⟩ := by decide +kernel
  have hget : getStringField true [0x41, 0, 0, 0] 0 = some ⟨[0], 1⟩ := by decide +kernel
  refine ⟨representable_ascii, hset, hget, ?_⟩
  rintro ⟨f, w, hf, hw, hcstr, -⟩
  obtain rfl := Option.some.inj (hset.symm.trans hf)
  obtain rfl := Option.some.inj (hget.symm.trans hw)
  cases hcstr

/-! ## Strings of a reply -/

/-- The packet from `pos` on. -/
def memoryFrom (p : Packet) (pos : Nat) : List UInt8 := p.bytes pos (p.size - pos)

section Replies

variable {p : Packet} {pos : Nat}

theorem memoryFrom_cons (h : pos < p.size) :
    memoryFrom p pos = p.byte pos :: memoryFrom p (pos + 1) := by
  unfold memoryFrom Packet.bytes
  rw [show p.size - pos = p.size - (pos + 1) + 1 by omega, List.range_succ_eq_map, List.map_cons,
    List.map_map]
  congr 1
  refine List.map_congr_left fun i _ => ?_
  show p.byte (pos + (i + 1)) = p.byte (pos + 1 + i)
  congr 1
  omega

theorem memoryFrom_unit (h : pos + 2 ≤ p.size) :
    memoryFrom p pos = unitBytes (p.word pos) ++ memoryFrom p (pos + 2) := by
  have hlo := (p.byte pos).toNat_lt
  have hhi := (p.byte (pos + 1)).toNat_lt
  have hword : p.word pos = (p.byte pos).toNat + 256 * (p.byte (pos + 1)).toNat := rfl
  have hlow : p.word pos % 256 = (p.byte pos).toNat := by omega
  have hhigh : p.word pos / 2 ^ 8 % 256 = (p.byte (pos + 1)).toNat := by omega
  rw [memoryFrom_cons (by omega), memoryFrom_cons (by omega)]
  unfold unitBytes
  rw [and_ff, and_ff, Nat.shiftRight_eq_div_pow, hlow, hhigh, UInt8.ofNat_toNat, UInt8.ofNat_toNat]
  rfl

theorem word_lt (p : Packet) (pos : Nat) : p.word pos < 65536 := by
  have hlo := (p.byte pos).toNat_lt
  have hhi := (p.byte (pos + 1)).toNat_lt
  have hword : p.word pos = (p.byte pos).toNat + 256 * (p.byte (pos + 1)).toNat := rfl
  omega

theorem utf16ToAscii_short (mem : List UInt8) {inbytes : Int} (h : inbytes < 2) :
    utf16ToAscii mem inbytes = some ⟨[0], 1⟩ := by
  match mem with
  | [] | [_] | _ :: _ :: _ =>
      rw [utf16ToAscii.eq_def]
      dsimp only
      rw [if_pos h]

/-- A string with its terminator. -/
def terminated (s : List UInt8) : Written := ⟨s ++ [0], s.length + 1⟩

theorem step_terminated (bytes s : List UInt8) :
    (terminated s).step bytes bytes.length = terminated (bytes ++ s) := by
  unfold terminated Written.step
  rw [List.append_assoc, List.length_append, Nat.add_right_comm, Nat.add_comm bytes.length]

theorem flatMap_words_succ (p : Packet) (n pos : Nat) :
    ((List.range (n + 1)).flatMap fun i => utf8 (p.word (pos + 2 * i))) =
      utf8 (p.word pos) ++ (List.range n).flatMap fun i => utf8 (p.word (pos + 2 + 2 * i)) := by
  rw [List.range_succ_eq_map, List.flatMap_cons, List.flatMap_map]
  congr 1
  refine List.flatMap_congr fun i _ => ?_
  show utf8 (p.word (pos + 2 * (i + 1))) = _
  congr 2
  omega

/-- The units that are scanned are those the loop converts. -/
theorem utf16ToAscii_scanned (limit : Nat) : ∀ {pos n : Nat} {inbytes : Int},
    Scanned p 2 limit pos n → (0 < limit → 2 * limit ≤ inbytes) → inbytes < 2 * limit + 2 →
    utf16ToAscii (memoryFrom p pos) inbytes =
      some (terminated ((List.range n).flatMap fun i => utf8 (p.word (pos + 2 * i)))) := by
  induction limit with
  | zero =>
      intro pos n inbytes h hlow hhigh
      obtain rfl := Scanned.zero_iff.mp h
      exact utf16ToAscii_short _ (by omega)
  | succ limit ih =>
      intro pos n inbytes h hlow hhigh
      obtain ⟨hin, ⟨rfl, hzero⟩ | ⟨m, rfl, hunit, hrest⟩⟩ := h.succ_cases
      · have hword : p.word pos = 0 := hzero
        rw [memoryFrom_unit hin, utf16ToAscii_stop (Or.inr hword)]
        rfl
      · have hpos : 0 < p.word pos := Nat.pos_of_ne_zero hunit
        have hunits := hlow (Nat.succ_pos _)
        rw [memoryFrom_unit hin, utf16ToAscii_unit hpos (word_lt p pos) (by omega),
          ih hrest (by omega) (by omega), Option.map_some, step_terminated, flatMap_words_succ]

theorem bytes_succ (p : Packet) (n pos : Nat) :
    p.bytes pos (n + 1) = p.byte pos :: p.bytes (pos + 1) n := by
  unfold Packet.bytes
  rw [List.range_succ_eq_map, List.map_cons, List.map_map]
  congr 1
  refine List.map_congr_left fun i _ => ?_
  show p.byte (pos + (i + 1)) = _
  congr 1
  omega

/-- Bytes that are scanned up to a limit are those that are copied. -/
theorem strncpy_scanned (limit : Nat) : ∀ {pos n : Nat}, Scanned p 1 limit pos n →
    strncpy limit (memoryFrom p pos) = some (p.bytes pos n ++ List.replicate (limit - n) 0) := by
  induction limit with
  | zero =>
      intro pos n h
      obtain rfl := Scanned.zero_iff.mp h
      rfl
  | succ limit ih =>
      intro pos n h
      obtain ⟨hin, ⟨rfl, hzero⟩ | ⟨m, rfl, hunit, hrest⟩⟩ := h.succ_cases
      · have hbyte : p.byte pos = 0 := (eq_zero_iff _).mpr hzero
        rw [memoryFrom_cons hin, strncpy, if_pos hbyte]
        rfl
      · have hbyte : p.byte pos ≠ 0 := fun hzero => hunit ((eq_zero_iff _).mp hzero)
        rw [memoryFrom_cons hin, strncpy, if_neg hbyte, ih hrest, bytes_succ,
          Nat.add_sub_add_right]
        rfl

theorem zero_notMem_scanned (limit : Nat) : ∀ {pos n : Nat}, Scanned p 1 limit pos n →
    0 ∉ p.bytes pos n := by
  induction limit with
  | zero =>
      intro pos n h
      obtain rfl := Scanned.zero_iff.mp h
      exact nofun
  | succ limit ih =>
      intro pos n h hmem
      obtain ⟨-, ⟨rfl, -⟩ | ⟨m, rfl, hunit, hrest⟩⟩ := h.succ_cases
      · cases hmem
      · rw [bytes_succ] at hmem
        obtain hhead | htail := List.mem_cons.mp hmem
        · exact hunit ((eq_zero_iff _).mp hhead.symm)
        · exact ih hrest htail

/-- A terminated string is copied with its terminator. -/
theorem cstr_scanned (limit : Nat) : ∀ {pos n : Nat}, Scanned p 1 limit pos n → n < limit →
    cstr (memoryFrom p pos) = some (p.bytes pos n) := by
  induction limit with
  | zero =>
      intro pos n h hn
      omega
  | succ limit ih =>
      intro pos n h hn
      obtain ⟨hin, ⟨rfl, hzero⟩ | ⟨m, rfl, hunit, hrest⟩⟩ := h.succ_cases
      · have hbyte : p.byte pos = 0 := (eq_zero_iff _).mpr hzero
        rw [memoryFrom_cons hin, cstr, if_pos hbyte]
        rfl
      · have hbyte : p.byte pos ≠ 0 := fun hzero => hunit ((eq_zero_iff _).mp hzero)
        rw [memoryFrom_cons hin, cstr, if_neg hbyte, ih hrest (by omega), bytes_succ]
        rfl

theorem bytes_length (p : Packet) (pos n : Nat) : (p.bytes pos n).length = n := by
  rw [Packet.bytes, List.length_map, List.length_range]

/-- The copy and the result fit what the bounds of the reply allow for. -/
structure Gives (capacity : Nat) (out : List UInt8) (w : Written) : Prop where
  fits : w.out.length ≤ capacity
  string : cstr w.out = some out
  len : w.len = out.length + 1

theorem gives_terminated {capacity : Nat} {out : List UInt8} (hfits : out.length + 1 ≤ capacity)
    (hout : 0 ∉ out) : Gives capacity out (terminated out) := by
  refine ⟨?_, cstr_append hout [], rfl⟩
  rw [terminated, List.length_append]
  exact hfits

theorem getStringField_units {capacity inbytes : Nat} {out : List UInt8} (hin : inbytes < 4294967296)
    (h : Smb.getStringField true capacity p pos inbytes = .ok out) :
    ∃ w, getStringField true (memoryFrom p pos) inbytes = some w ∧ Gives capacity out w := by
  obtain ⟨out', hout, h⟩ := bind_ok_iff.mp h
  obtain ⟨_, hcopy, h⟩ := bind_ok_iff.mp h
  cases h
  obtain ⟨n, hscan, rfl⟩ := utf16ToAscii_ok_iff.mp hout
  have hzero : 0 ∉ (List.range n).flatMap fun i => utf8 (p.word (pos + 2 * i)) := by
    intro hmem
    obtain ⟨i, hi, hbyte⟩ := List.mem_flatMap.mp hmem
    have hword : p.word (pos + 2 * i) ≠ 0 := (hscan.run i (List.mem_range.mp hi)).2
    exact zero_notMem_utf8 (Nat.pos_of_ne_zero hword) (word_lt p _) hbyte
  refine ⟨_, ?_, gives_terminated (copyTo_ok_iff.mp hcopy) hzero⟩
  show utf16ToAscii (memoryFrom p pos) (signed inbytes) = _
  unfold signed
  split at hscan
  · rename_i hsmall
    rw [if_pos hsmall]
    exact utf16ToAscii_scanned _ hscan (by omega) (by omega)
  · rename_i hlarge
    rw [if_neg hlarge]
    exact utf16ToAscii_scanned _ hscan (by omega) (by omega)

theorem getStringField_bytes {capacity inbytes : Nat} {out : List UInt8}
    (h : Smb.getStringField false capacity p pos inbytes = .ok out) :
    ∃ w, getStringField false (memoryFrom p pos) inbytes = some w ∧ Gives capacity out w := by
  unfold Smb.getStringField at h
  rw [if_neg (by decide)] at h
  split at h
  · rename_i hne
    obtain ⟨n, hlen, h⟩ := bind_ok_iff.mp h
    obtain ⟨_, hcopy, h⟩ := bind_ok_iff.mp h
    cases h
    have hscan := (scan_ok_iff p (by decide) _ _ _).mp hlen
    have hbound := hscan.bound
    have hcstr : cstr (p.bytes pos n ++ List.replicate (inbytes - n) 0 ++ [0]) =
        some (p.bytes pos n) := by
      rw [List.append_assoc, ← List.replicate_succ', List.replicate_succ]
      exact cstr_append (zero_notMem_scanned _ hscan) _
    refine ⟨_, getStringField_strncpy hne (strncpy_scanned _ hscan) hcstr, ?_, hcstr, rfl⟩
    have hcapacity := copyTo_ok_iff.mp hcopy
    rw [List.length_append, List.length_append, List.length_replicate, bytes_length]
    show n + (inbytes - n) + 1 ≤ capacity
    omega
  · rename_i hzero
    obtain rfl := not_not.mp hzero
    obtain ⟨n, hlen, h⟩ := bind_ok_iff.mp h
    obtain ⟨_, hcopy, h⟩ := bind_ok_iff.mp h
    cases h
    have hscan : Scanned p 1 (p.size + 1) pos n := strlen_ok_iff.mp hlen
    -- a string of all the bytes would have no terminator in the packet
    have hbound : n < p.size + 1 := by
      refine Nat.lt_of_le_of_ne hscan.bound fun hall => ?_
      have hlast := (hscan.run p.size (by omega)).1
      omega
    have hcopied := copyTo_ok_iff.mp hcopy
    rw [← bytes_length p pos n] at hcopied
    refine ⟨_, ?_, gives_terminated hcopied (zero_notMem_scanned _ hscan)⟩
    show strcpy (memoryFrom p pos) = _
    unfold strcpy
    rw [cstr_scanned _ hscan hbound]
    rfl

/-- Where the bounds of a reply are kept, its field is what they were checked for. -/
theorem getStringField_reply {unicode : Bool} {capacity inbytes : Nat} {out : List UInt8}
    (hin : inbytes < 4294967296)
    (h : Smb.getStringField unicode capacity p pos inbytes = .ok out) :
    ∃ w, getStringField unicode (memoryFrom p pos) inbytes = some w ∧ Gives capacity out w := by
  cases unicode with
  | false => exact getStringField_bytes h
  | true => exact getStringField_units hin h

end Replies

end BdmAssault.Smb.Codec
