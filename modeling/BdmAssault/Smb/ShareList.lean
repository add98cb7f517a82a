import BdmAssault.Smb.ReplyBounds
import Mathlib.Data.List.Nodup

/-! # The list of shares

`smb_GetShareList` on a server that gives the same list of shares for each enumeration: the
first one counts the disk shares, the others ask for one share each.
-/

namespace BdmAssault.Smb

/-! ## The function -/

/-- What the server answers in one call; `enumeration` has the replies in their order. -/
structure ShareAnswers where
  treeConnect : Ret
  enumeration : Nat → Packet
  treeDisconnect : Ret

/-- `IPC$` -/
def ipcName : List UInt8 := [0x49, 0x50, 0x43, 0x24]

/-- The loop over the entries that are left. `ShareList` keeps what it had where an
enumeration copies nothing; `sent` went to the EE. -/
def shareListLoop (enumeration : Nat → Packet) (maxent : Int) :
    List Nat → ShareEntry → List ShareEntry → Except Fault (Ret × List ShareEntry)
  | [], _, sent => return (.ok sent.length, sent)
  | i :: rest, shareList, sent => do
      match ← smbNetShareEnum (enumeration (i + 1)) i 1 with
      | (.error e, _) => return (.error e, sent)
      | (.ok _, entries) =>
          let shareList := entries.headD shareList
          if shareList.shareName ≠ ipcName ∧ (sent.length : Int) < maxent then
            shareListLoop enumeration maxent rest shareList (sent ++ [shareList])
          else shareListLoop enumeration maxent rest shareList sent

/-- The result and the entries on the EE; `uid` is -1 without a session. -/
def smbGetShareList (uid : Option Nat) (answers : ShareAnswers) (maxent : Int)
    (shareList : ShareEntry) : Except Fault (Ret × List ShareEntry) :=
  match answers.treeConnect with
  | .error e => return (.error e, [])
  | .ok _ =>
      if uid = none then return (.error .enotconn, [])
      else do
        match ← smbNetShareEnum (answers.enumeration 0) 0 0 with
        | (.error e, _) => return (.error e, [])
        | (.ok sharecount, _) =>
            match ← shareListLoop answers.enumeration maxent (List.range sharecount) shareList [] with
            | (.error e, sent) => return (.error e, sent)
            | (.ok shareindex, sent) =>
                match answers.treeDisconnect with
                | .error e => return (.error e, sent)
                | .ok _ => return (.ok shareindex, sent)

/-! ## Replies with a list -/

/-- A share with a short name; of its comment, what fits `ShareComment`. -/
structure Share where
  name : List UInt8
  type : Nat
  comment : List UInt8
  short : name.length ≤ 12
  bare : 0 ∉ name

def Share.entry (s : Share) : ShareEntry := ⟨s.name, s.comment⟩

/-- An entry of 20 bytes: the name, filled up to 14 bytes, the type, and the place of the
comment. -/
structure EntryAt (p : Packet) (data pos : Nat) (s : Share) : Prop where
  inside : pos + 20 ≤ p.size
  name : p.bytes pos s.name.length = s.name
  terminator : p.byte (pos + s.name.length) = 0
  type : p.word (pos + 14) = s.type
  comment : ∃ n, Scanned p 1 256 (data + p.word (pos + 16)) n ∧
    p.bytes (data + p.word (pos + 16)) n = s.comment

/-- Entries one after the other. -/
def TableAt (p : Packet) (data : Nat) : Nat → List Share → Prop
  | _, [] => True
  | pos, s :: rest => EntryAt p data pos s ∧ TableAt p data (pos + 20) rest

/-- A successful reply with the whole list. -/
structure Carries (p : Packet) (shares : List Share) : Prop where
  accepted : accessResult p = .ok 0
  aligned : paramOffset p.buf % 2 = 0
  params : paramOffset p.buf + 8 ≤ p.size
  api : p.word (paramOffset p.buf) = 0
  available : p.word (paramOffset p.buf + 6) = shares.length
  count : shares.length < 32768
  table : TableAt p (transDataOffset p.buf) (transDataOffset p.buf) shares

/-- The server answers every request of the call, with the same list each time. -/
structure Serves (answers : ShareAnswers) (shares : List Share) : Prop where
  connected : ∃ tid, answers.treeConnect = .ok tid
  listed : ∀ k, Carries (answers.enumeration k) shares
  disconnected : ∃ r, answers.treeDisconnect = .ok r

/-! ## One enumeration -/

def Share.disk (s : Share) : Bool := s.type = 0

/-- The loop of `smb_NetShareEnum` over a list. -/
def enumerate (index maxEntries : Int) : List Share → Nat → Nat → Nat × List Share
  | [], _, count => (count, [])
  | s :: rest, i, count =>
      if s.disk then
        if shareWanted index maxEntries i count then
          let (total, more) := enumerate index maxEntries rest (i + 1) (count + 1)
          (total, s :: more)
        else
          enumerate index maxEntries rest (i + 1) (if 0 < maxEntries then count else count + 1)
      else enumerate index maxEntries rest (i + 1) count

section Enumeration

variable {p : Packet} {data pos : Nat} {s : Share} {index maxEntries : Int}

theorem shareEnd_short (hlen : s.name.length ≤ 12) : shareEnd pos s.name.length = pos + 16 := by
  unfold shareEnd sharePadding
  rw [if_pos (by omega)]
  omega

theorem mem_bytes (p : Packet) {pos i n : Nat} (hi : i < n) : p.byte (pos + i) ∈ p.bytes pos n :=
  List.mem_map.mpr ⟨i, List.mem_range.mpr hi, rfl⟩

/-- The name is what `strlen` finds. -/
theorem EntryAt.strlen (h : EntryAt p data pos s) : p.strlen pos = .ok s.name.length := by
  have hshort := s.short
  have hinside := h.inside
  refine strlen_ok_iff.mpr ⟨by omega, fun i hi => ⟨by omega, ?_⟩, fun _ => ⟨by omega, ?_⟩⟩
  · intro hzero
    have hbyte : p.byte (pos + 1 * i) = 0 := UInt8.toNat_inj.mp hzero
    have hmem := @mem_bytes p pos i _ hi
    rw [Nat.one_mul] at hbyte
    rw [h.name, hbyte] at hmem
    exact s.bare hmem
  · show (p.byte (pos + 1 * s.name.length)).toNat = 0
    rw [Nat.one_mul, h.terminator]
    rfl

theorem read_ok {pos len : Nat} (h : pos + len ≤ p.size) : p.read pos len = .ok () :=
  if_pos (Or.inr h)

/-- The walk over a table gives what the loop over its list does. -/
theorem shareLoop_table {shares : List Share} {pos : Nat} (h : TableAt p data pos shares)
    (i count : Nat) : shareLoop p data index maxEntries shares.length i count pos =
      .ok ((enumerate index maxEntries shares i count).1,
        (enumerate index maxEntries shares i count).2.map Share.entry) := by
  induction shares generalizing pos i count with
  | nil => rfl
  | cons s rest ih =>
      obtain ⟨hentry, hrest⟩ := h
      have hinside := hentry.inside
      have hlen := s.short
      have hend : shareEnd pos s.name.length = pos + 16 := shareEnd_short hlen
      have htype : p.word (pos + 16 - 2) = s.type := hentry.type
      obtain ⟨n, hscan, hcomment⟩ := hentry.comment
      have hscanned := (scan_ok_iff p (by decide) _ _ _).mpr hscan
      rw [List.length_cons, shareLoop, hentry.strlen]
      dsimp only [bind, Except.bind]
      rw [hend, read_ok (by omega), htype]
      dsimp only
      unfold enumerate
      by_cases hdisk : s.type = 0
      · have hshared : s.disk = true := decide_eq_true hdisk
        rw [if_pos hdisk, if_pos hshared]
        by_cases hwanted : shareWanted index maxEntries i count = true
        · rw [if_pos hwanted, if_pos hwanted, read_ok (by omega), hscanned, ih hrest,
            Nat.min_eq_left (by omega), hentry.name]
          show Except.ok (_, (⟨s.name, p.bytes (data + p.word (pos + 16)) n⟩ : ShareEntry) :: _) =
            Except.ok (_, s.entry :: _)
          rw [hcomment]
          rfl
        · rw [if_neg hwanted, if_neg hwanted, ih hrest]
      · have hother : ¬s.disk = true := fun h => hdisk (of_decide_eq_true h)
        rw [if_neg hdisk, if_neg hother, ih hrest]

/-- The reply to an enumeration is what the loop over the list gives. -/
theorem smbNetShareEnum_table {shares : List Share} (h : Carries p shares) :
    smbNetShareEnum p index maxEntries = .ok (.ok (enumerate index maxEntries shares 0 0).1,
      (enumerate index maxEntries shares 0 0).2.map Share.entry) := by
  have haligned := h.aligned
  have hparams := h.params
  have hcount := h.count
  have hapi : 2 * (paramOffset p.buf / 2) = paramOffset p.buf := by omega
  have havailable : 2 * ((paramOffset p.buf + 6) / 2) = paramOffset p.buf + 6 := by omega
  have hentries : availableEntries p = shares.length := by
    unfold availableEntries
    rw [havailable, h.available]
    exact if_pos hcount
  unfold smbNetShareEnum
  rw [h.accepted, hapi, havailable, hentries]
  dsimp only
  rw [read_ok (by omega), read_ok (by omega), shareLoop_table h.table, h.api]
  rfl

end Enumeration

/-! ## What an enumeration finds -/

section Found

/-- A share with its place in the list. -/
abbrev Placed := Share × Nat

/-- The first disk share from place `index` on. -/
def firstFrom (placed : List Placed) (index : Nat) : Option Placed :=
  placed.find? fun s => s.1.disk ∧ index ≤ s.2

theorem firstFrom_hit {s : Share} {i index : Nat} {rest : List Placed} (hdisk : s.disk = true)
    (h : index ≤ i) : firstFrom ((s, i) :: rest) index = some (s, i) :=
  List.find?_cons_of_pos (decide_eq_true ⟨hdisk, h⟩)

theorem firstFrom_miss {s : Share} {i index : Nat} {rest : List Placed}
    (h : ¬(s.disk = true ∧ index ≤ i)) :
    firstFrom ((s, i) :: rest) index = firstFrom rest index :=
  List.find?_cons_of_neg fun hfound => h (of_decide_eq_true hfound)

theorem enumerate_count (shares : List Share) (i count : Nat) :
    (enumerate 0 0 shares i count).1 = count + shares.countP Share.disk := by
  induction shares generalizing i count with
  | nil => rfl
  | cons s rest ih =>
      rw [List.countP_cons]
      unfold enumerate
      by_cases hdisk : s.disk = true
      · rw [if_pos hdisk, if_pos hdisk]
        show (enumerate 0 0 rest (i + 1) (count + 1)).1 = _
        rw [ih]
        omega
      · rw [if_neg hdisk, if_neg hdisk]
        exact ih (i + 1) count

/-- Once an entry is copied, no other one is. -/
theorem enumerate_taken (index : Int) (shares : List Share) (i : Nat) :
    (enumerate index 1 shares i 1).2 = [] := by
  induction shares generalizing i with
  | nil => rfl
  | cons s rest ih =>
      have hfull : ¬shareWanted index 1 i 1 = true := by simp [shareWanted]
      unfold enumerate
      rw [if_neg hfull]
      split
      · exact ih (i + 1)
      · exact ih (i + 1)

theorem enumerate_one (index : Nat) (shares : List Share) (i : Nat) :
    (enumerate index 1 shares i 0).2 = ((firstFrom (shares.zipIdx i) index).map Prod.fst).toList := by
  induction shares generalizing i with
  | nil => rfl
  | cons s rest ih =>
      have hwanted : shareWanted index 1 i 0 = true ↔ index ≤ i := by simp [shareWanted]
      unfold enumerate
      rw [List.zipIdx_cons]
      by_cases hdisk : s.disk = true
      · rw [if_pos hdisk]
        by_cases hplace : index ≤ i
        · rw [if_pos (hwanted.mpr hplace), firstFrom_hit hdisk hplace]
          show s :: (enumerate index 1 rest (i + 1) 1).2 = [s]
          rw [enumerate_taken]
        · rw [if_neg fun h => hplace (hwanted.mp h), firstFrom_miss fun h => hplace h.2]
          exact ih (i + 1)
      · rw [if_neg hdisk, firstFrom_miss fun h => hdisk h.1]
        exact ih (i + 1)

/-- A place with fewer disk shares in front of it than there are has one behind it. -/
theorem exists_firstFrom {shares : List Share} {start index : Nat}
    (hpos : 0 < shares.countP Share.disk) (h : index < start + shares.countP Share.disk) :
    ∃ s, firstFrom (shares.zipIdx start) index = some s := by
  induction shares generalizing start with
  | nil => cases hpos
  | cons s rest ih =>
      rw [List.countP_cons] at hpos h
      rw [List.zipIdx_cons]
      by_cases hdisk : s.disk = true
      · rw [if_pos hdisk] at hpos h
        by_cases hplace : index ≤ start
        · exact ⟨_, firstFrom_hit hdisk hplace⟩
        · rw [firstFrom_miss fun hhit => hplace hhit.2]
          exact ih (by omega) (by omega)
      · rw [if_neg hdisk] at hpos h
        rw [firstFrom_miss fun hhit => hdisk hhit.1]
        exact ih hpos (by omega)

end Found

/-! ## What is sent -/

/-- The places that the enumerations from the places `indices` on come to. -/
def foundFrom (shares : List Share) (indices : List Nat) : List Placed :=
  indices.filterMap (firstFrom shares.zipIdx)

def visible (s : Placed) : Bool := s.1.name ≠ ipcName

/-- The shares that are sent, with the place each was copied from. -/
def sentShares (shares : List Share) (maxent : Int) : List Placed :=
  ((foundFrom shares (List.range (shares.countP Share.disk))).filter visible).take maxent.toNat

/-- The shares that should be. -/
def wantedShares (shares : List Share) (maxent : Int) : List Placed :=
  (shares.zipIdx.filter fun s => s.1.disk && visible s).take maxent.toNat

/-- The wanted shares are sent, each from its own place, and counted. -/
structure Lists (uid : Option Nat) (answers : ShareAnswers) (shares : List Share) (maxent : Int)
    (shareList : ShareEntry) : Prop where
  result : smbGetShareList uid answers maxent shareList = .ok
    (.ok (wantedShares shares maxent).length, (wantedShares shares maxent).map (·.1.entry))
  places : sentShares shares maxent = wantedShares shares maxent

section Sent

variable {enumeration : Nat → Packet} {shares : List Share} {maxent : Int}

theorem smbNetShareEnum_one {p : Packet} {index : Nat} {s : Placed} (h : Carries p shares)
    (hfound : firstFrom shares.zipIdx index = some s) :
    ∃ count, smbNetShareEnum p index 1 = .ok (.ok count, [s.1.entry]) := by
  refine ⟨(enumerate index 1 shares 0 0).1, ?_⟩
  rw [smbNetShareEnum_table h, enumerate_one, hfound]
  rfl

theorem shareListLoop_found (h : ∀ k, Carries (enumeration k) shares) (indices : List Nat)
    (hfound : ∀ i ∈ indices, ∃ s, firstFrom shares.zipIdx i = some s) (shareList : ShareEntry)
    (sent : List ShareEntry) :
    ∃ more, more = ((foundFrom shares indices).filter visible).take (maxent.toNat - sent.length) ∧
      shareListLoop enumeration maxent indices shareList sent =
        .ok (.ok (sent.length + more.length), sent ++ more.map (·.1.entry)) := by
  induction indices generalizing shareList sent with
  | nil =>
      refine ⟨[], List.take_nil.symm, ?_⟩
      rw [List.map_nil, List.append_nil]
      rfl
  | cons i rest ih =>
      obtain ⟨s, hs⟩ := hfound i List.mem_cons_self
      obtain ⟨count, henum⟩ := smbNetShareEnum_one (h (i + 1)) hs
      have hrest := fun j hj => hfound j (List.mem_cons_of_mem i hj)
      have hcons : foundFrom shares (i :: rest) = s :: foundFrom shares rest :=
        List.filterMap_cons_some hs
      have hstep : shareListLoop enumeration maxent (i :: rest) shareList sent =
          if s.1.name ≠ ipcName ∧ (sent.length : Int) < maxent then
            shareListLoop enumeration maxent rest s.1.entry (sent ++ [s.1.entry])
          else shareListLoop enumeration maxent rest s.1.entry sent := by
        rw [shareListLoop, henum]
        rfl
      rw [hstep, hcons]
      by_cases hvisible : s.1.name ≠ ipcName
      · have hshown : visible s = true := decide_eq_true hvisible
        rw [List.filter_cons_of_pos hshown]
        by_cases hroom : (sent.length : Int) < maxent
        · obtain ⟨more, hmore, hloop⟩ := ih hrest s.1.entry (sent ++ [s.1.entry])
          rw [List.length_append, List.length_singleton] at hmore hloop
          refine ⟨s :: more, ?_, ?_⟩
          · rw [show maxent.toNat - sent.length = maxent.toNat - (sent.length + 1) + 1 by omega,
              List.take_succ_cons, hmore]
          · rw [if_pos ⟨hvisible, hroom⟩, hloop, List.append_assoc, List.length_cons, Nat.add_assoc,
              Nat.add_comm 1]
            rfl
        · obtain ⟨more, hmore, hloop⟩ := ih hrest s.1.entry sent
          rw [show maxent.toNat - sent.length = 0 by omega, List.take_zero] at hmore ⊢
          rw [if_neg fun hsent => hroom hsent.2]
          exact ⟨more, hmore, hloop⟩
      · have hhidden : ¬visible s = true := fun hshown => hvisible (of_decide_eq_true hshown)
        rw [if_neg fun hsent => hvisible hsent.1, List.filter_cons_of_neg hhidden]
        exact ih hrest s.1.entry sent

/-- The call ends with what was sent. -/
theorem smbGetShareList_sent {answers : ShareAnswers} (h : Serves answers shares) (uid : Nat)
    (shareList : ShareEntry) : smbGetShareList (some uid) answers maxent shareList = .ok
      (.ok (sentShares shares maxent).length, (sentShares shares maxent).map (·.1.entry)) := by
  obtain ⟨tid, htid⟩ := h.connected
  obtain ⟨r, hr⟩ := h.disconnected
  have hcount : smbNetShareEnum (answers.enumeration 0) 0 0 =
      .ok (.ok (shares.countP Share.disk), (enumerate 0 0 shares 0 0).2.map Share.entry) := by
    rw [smbNetShareEnum_table (h.listed 0), enumerate_count, Nat.zero_add]
  obtain ⟨more, hmore, hloop⟩ := @shareListLoop_found _ _ maxent h.listed
    (List.range (shares.countP Share.disk)) (fun i hi => by
      have hlt := List.mem_range.mp hi
      exact exists_firstFrom (by omega) (by omega)) shareList []
  obtain rfl : more = sentShares shares maxent := hmore
  unfold smbGetShareList
  rw [htid]
  dsimp only
  rw [if_neg (by simp), hcount]
  dsimp only [bind, Except.bind]
  rw [hloop]
  dsimp only
  rw [hr, List.length_nil, Nat.zero_add]
  rfl

end Sent

/-! ## The enumerations that find a share -/

/-- A disk share, with the place behind the disk share in front of it. -/
structure Span where
  share : Placed
  start : Nat

def spans : List Placed → Nat → List Span
  | [], _ => []
  | s :: rest, start => if s.1.disk then ⟨s, start⟩ :: spans rest (s.2 + 1) else spans rest start

/-- The number of places below `m` that the share is found from. -/
def Span.copies (m : Nat) (d : Span) : Nat := min (d.share.2 + 1) m - d.start

theorem spans_share (placed : List Placed) (start : Nat) :
    (spans placed start).map Span.share = placed.filter (·.1.disk) := by
  induction placed generalizing start with
  | nil => rfl
  | cons s rest ih =>
      unfold spans
      by_cases hdisk : s.1.disk = true
      · rw [if_pos hdisk, List.map_cons, List.filter_cons, if_pos hdisk, ih]
      · rw [if_neg hdisk, List.filter_cons, if_neg hdisk, ih]

theorem spans_start {shares : List Share} {i start : Nat} (h : start ≤ i) :
    ∀ d ∈ spans (shares.zipIdx i) start, d.start ≤ d.share.2 := by
  induction shares generalizing i start with
  | nil => exact nofun
  | cons s rest ih =>
      rw [List.zipIdx_cons]
      unfold spans
      by_cases hdisk : s.disk = true
      · rw [if_pos hdisk]
        rintro d (_ | ⟨_, hd⟩)
        · exact h
        · exact ih (Nat.le_refl _) d hd
      · rw [if_neg hdisk]
        exact ih (Nat.le_succ_of_le h)

/-- The places from `start` on come to each share as often as there are places between it and
the one in front. -/
theorem filterMap_firstFrom (m : Nat) {shares : List Share} {i start : Nat} (h : start ≤ i) :
    (List.range' start (m - start)).filterMap (firstFrom (shares.zipIdx i)) =
      (spans (shares.zipIdx i) start).flatMap fun d => List.replicate (d.copies m) d.share := by
  induction shares generalizing i start with
  | nil => exact List.filterMap_eq_nil_iff.mpr fun _ _ => rfl
  | cons s rest ih =>
      rw [List.zipIdx_cons]
      unfold spans
      by_cases hdisk : s.disk = true
      · have hsplit : List.range' start (m - start) =
            List.range' start (min (i + 1) m - start) ++ List.range' (i + 1) (m - (i + 1)) := by
          by_cases hm : m ≤ i + 1
          · rw [Nat.min_eq_right hm, Nat.sub_eq_zero_of_le hm, List.range'_zero, List.append_nil]
          · rw [Nat.min_eq_left (by omega)]
            have hjoin := @List.range'_append_1 start (i + 1 - start) (m - (i + 1))
            rw [Nat.add_sub_cancel' (by omega)] at hjoin
            rw [hjoin]
            congr 1
            omega
        have hhit : (List.range' start (min (i + 1) m - start)).filterMap
            (firstFrom ((s, i) :: rest.zipIdx (i + 1))) =
              List.replicate (min (i + 1) m - start) (s, i) := by
          have hall : ∀ j ∈ List.range' start (min (i + 1) m - start),
              firstFrom ((s, i) :: rest.zipIdx (i + 1)) j = some (s, i) := by
            intro j hj
            rw [List.mem_range'_1] at hj
            exact firstFrom_hit hdisk (by omega)
          rw [List.filterMap_congr hall]
          show List.filterMap (some ∘ fun _ => (s, i)) _ = _
          rw [List.filterMap_eq_map, List.map_const', List.length_range']
        have hmiss : (List.range' (i + 1) (m - (i + 1))).filterMap
            (firstFrom ((s, i) :: rest.zipIdx (i + 1))) =
              (List.range' (i + 1) (m - (i + 1))).filterMap (firstFrom (rest.zipIdx (i + 1))) := by
          refine List.filterMap_congr fun j hj => firstFrom_miss fun hhit => ?_
          rw [List.mem_range'_1] at hj
          omega
        rw [if_pos hdisk, hsplit, List.filterMap_append, hhit, hmiss, ih (Nat.le_refl _)]
        rfl
      · rw [if_neg hdisk, ← ih (Nat.le_succ_of_le h)]
        refine List.filterMap_congr fun j _ => firstFrom_miss fun hhit => hdisk hhit.1

section Copies

variable {α β : Type}

/-- Filtering copies filters what is copied. -/
theorem filter_flatMap_replicate (L : List α) (c : α → Nat) (e : α → β) (p : β → Bool) :
    (L.flatMap fun a => List.replicate (c a) (e a)).filter p =
      (L.filter fun a => p (e a)).flatMap fun a => List.replicate (c a) (e a) := by
  induction L with
  | nil => rfl
  | cons a rest ih =>
      rw [List.flatMap_cons, List.filter_append, ih, List.filter_replicate]
      by_cases hp : p (e a) = true
      · rw [if_pos hp, List.filter_cons, if_pos hp, List.flatMap_cons]
      · rw [if_neg hp, List.filter_cons, if_neg hp, List.nil_append]

/-- Copies of different things are, up to a number of them, the things once each exactly when
all of them are copied, and all but the last once only. -/
theorem take_copies_iff {L : List α} {c : α → Nat} {e : α → β} (hL : (L.map e).Nodup) (n : Nat) :
    (L.flatMap fun a => List.replicate (c a) (e a)).take n = (L.map e).take n ↔
      ∀ k a, L[k]? = some a → k < n → 0 < c a ∧ (k + 1 < n → c a = 1) := by
  induction L generalizing n with
  | nil => exact iff_of_true rfl nofun
  | cons a rest ih =>
      obtain ⟨hnotin, hrest⟩ := List.nodup_cons.mp hL
      rw [List.flatMap_cons, List.map_cons]
      match n with
      | 0 => exact iff_of_true rfl nofun
      | n + 1 =>
          match hc : c a with
          | 0 =>
              refine iff_of_false (fun h => hnotin ?_) fun h => ?_
              · have hfirst : e a ∈ (rest.flatMap fun b => List.replicate (c b) (e b)).take (n + 1) := by
                  rw [show (rest.flatMap fun b => List.replicate (c b) (e b)).take (n + 1) =
                    e a :: (rest.map e).take n from h]
                  exact List.mem_cons_self
                have hmem := List.mem_of_mem_take hfirst
                obtain ⟨b, hb, hcopy⟩ := List.mem_flatMap.mp hmem
                rw [(List.mem_replicate.mp hcopy).2]
                exact List.mem_map_of_mem hb
              · have hpos := (h 0 a rfl (Nat.succ_pos n)).1
                omega
          | 1 =>
              show e a :: ((rest.flatMap _).take n) = e a :: ((rest.map e).take n) ↔ _
              rw [List.cons.injEq, ih hrest]
              constructor
              · rintro ⟨-, h⟩ k b hb hk
                cases k with
                | zero =>
                    obtain rfl := Option.some.inj hb
                    exact ⟨by omega, fun _ => hc⟩
                | succ k =>
                    obtain ⟨hpos, hone⟩ := h k b hb (by omega)
                    exact ⟨hpos, fun hlt => hone (by omega)⟩
              · refine fun h => ⟨rfl, fun k b hb hk => ?_⟩
                obtain ⟨hpos, hone⟩ := h (k + 1) b hb (by omega)
                exact ⟨hpos, fun hlt => hone (by omega)⟩
          | m + 2 =>
              match n with
              | 0 =>
                  refine iff_of_true rfl fun k b hb hk => ?_
                  obtain rfl : k = 0 := by omega
                  obtain rfl := Option.some.inj hb
                  exact ⟨by omega, fun hlt => absurd hlt (Nat.lt_irrefl _)⟩
              | n + 1 =>
                  refine iff_of_false (fun h => hnotin ?_) fun h => ?_
                  · have htail := (List.cons.inj h).2
                    have hsecond : e a ∈ (rest.map e).take (n + 1) := by
                      rw [← htail]
                      exact List.mem_cons_self
                    exact List.mem_of_mem_take hsecond
                  · have hone := (h 0 a rfl (Nat.succ_pos _)).2 (by omega)
                    omega

end Copies

/-! ## The lists that are listed -/

/-- The disk shares that are wanted, with the place behind the disk share in front of each. -/
def wantedSpans (shares : List Share) : List Span :=
  (spans shares.zipIdx 0).filter fun d => visible d.share

/-- Of the first `maxent` wanted shares, each comes behind fewer places than there are disk
shares, up to the disk share in front of it, and each but the last directly behind that, or
behind one place less than there are disk shares. -/
def InPlace (shares : List Share) (maxent : Int) : Prop :=
  ∀ (k : Nat) (d : Span), (wantedSpans shares)[k]? = some d → k < maxent →
    d.start < shares.countP Share.disk ∧
      (k + 1 < maxent → d.share.2 = d.start ∨ d.start + 1 = shares.countP Share.disk)

section Exact

variable {shares : List Share}

theorem wantedSpans_share (shares : List Share) : (wantedSpans shares).map Span.share =
    shares.zipIdx.filter fun s => s.1.disk && visible s := by
  unfold wantedSpans
  show List.map Span.share (List.filter (visible ∘ Span.share) _) = _
  rw [← List.filter_map, spans_share, List.filter_filter]
  exact List.filter_congr fun s _ => Bool.and_comm _ _

theorem nodup_zipIdx (shares : List Share) (i : Nat) : (shares.zipIdx i).Nodup := by
  refine List.Nodup.of_map Prod.snd ?_
  rw [List.zipIdx_map_snd]
  exact List.nodup_range'

theorem sentShares_eq (shares : List Share) (maxent : Int) : sentShares shares maxent =
    ((wantedSpans shares).flatMap fun d =>
      List.replicate (d.copies (shares.countP Share.disk)) d.share).take maxent.toNat := by
  unfold sentShares foundFrom wantedSpans
  have hfound := @filterMap_firstFrom (shares.countP Share.disk) shares 0 0 (Nat.le_refl 0)
  rw [Nat.sub_zero] at hfound
  rw [List.range_eq_range', hfound, filter_flatMap_replicate]

/-- Every wanted share is sent from its own place exactly for the lists that are in place. -/
theorem sentShares_wanted_iff (shares : List Share) (maxent : Int) :
    sentShares shares maxent = wantedShares shares maxent ↔ InPlace shares maxent := by
  have hnodup : ((wantedSpans shares).map Span.share).Nodup := by
    rw [wantedSpans_share]
    exact (nodup_zipIdx shares 0).filter _
  rw [sentShares_eq, wantedShares, ← wantedSpans_share, take_copies_iff hnodup]
  refine forall_congr' fun k => forall_congr' fun d => imp_congr_right fun hd => ?_
  have hstart : d.start ≤ d.share.2 := spans_start (Nat.le_refl 0) d
    (List.mem_of_mem_filter (List.mem_of_getElem? hd))
  unfold Span.copies
  constructor
  · intro h hk
    obtain ⟨hpos, hone⟩ := h (by omega)
    exact ⟨by omega, fun hlt => by have := hone (by omega); omega⟩
  · intro h hk
    obtain ⟨hpos, hone⟩ := h (by omega)
    exact ⟨by omega, fun hlt => by have := hone (by omega); omega⟩

end Exact

/-- The list is delivered exactly when its disk shares stand in place. -/
theorem smbGetShareList_lists_iff {answers : ShareAnswers} {shares : List Share}
    (h : Serves answers shares) (uid : Nat) (maxent : Int) (shareList : ShareEntry) :
    Lists (some uid) answers shares maxent shareList ↔ InPlace shares maxent := by
  rw [← sentShares_wanted_iff]
  constructor
  · exact fun hlists => hlists.places
  · intro hplaces
    refine ⟨?_, hplaces⟩
    rw [smbGetShareList_sent h, hplaces]

/-! ### Short lists -/

/-- A reply with `count` entries in its table. -/
def listReply (count : UInt8) (table : List UInt8) : Packet where
  buf i := ([0, 0, 0, 0, 0xff, 0x53, 0x4d, 0x42] ++ List.replicate 37 0 ++ [56, 0, 0, 0, 0, 0, 64] ++
    List.replicate 14 0 ++ [count, 0] ++ table).getD i 0
  size := 64 + table.length

/-- An entry whose comment is a zero byte of the first entry. -/
def entryBytes (name : List UInt8) (type : UInt8) : List UInt8 :=
  name ++ List.replicate (14 - name.length) 0 ++ [type, 0, 13, 0, 0, 0]

theorem entryAt_blank {p : Packet} {data pos : Nat} {s : Share} (h : pos + 20 ≤ p.size ∧
    p.bytes pos s.name.length = s.name ∧ p.byte (pos + s.name.length) = 0 ∧
    p.word (pos + 14) = s.type ∧ data + p.word (pos + 16) + 1 ≤ p.size ∧
    p.byte (data + p.word (pos + 16)) = 0 ∧ s.comment = []) : EntryAt p data pos s := by
  obtain ⟨hinside, hname, hterminator, htype, hin, hzero, hcomment⟩ := h
  refine ⟨hinside, hname, hterminator, htype, 0, ⟨Nat.zero_le _, nofun, fun _ => ⟨hin, ?_⟩⟩, ?_⟩
  · show (p.byte (data + p.word (pos + 16))).toNat = 0
    rw [hzero]
    rfl
  · rw [hcomment]
    rfl

def diskShare (letter : UInt8) (h : letter ≠ 0) : Share where
  name := [letter]
  type := 0
  comment := []
  short := Nat.succ_le_succ (Nat.zero_le _)
  bare hmem := h (List.mem_singleton.mp hmem).symm

/-- `IPC$` of type 3. -/
def ipcShare : Share where
  name := ipcName
  type := 3
  comment := []
  short := by decide
  bare := by decide

/-- A server that always sends the one reply. -/
def alwaysAnswers (p : Packet) : ShareAnswers := ⟨.ok 1, fun _ => p, .ok 0⟩

def noEntry : ShareEntry := ⟨[], []⟩

def disksFirst : List Share := [diskShare 0x41 (by decide), diskShare 0x42 (by decide), ipcShare]

def disksFirstReply : Packet :=
  listReply 3 (entryBytes [0x41] 0 ++ entryBytes [0x42] 0 ++ entryBytes ipcName 3)

theorem disksFirst_carried : Carries disksFirstReply disksFirst :=
  ⟨by decide +kernel, by decide +kernel, by decide +kernel, by decide +kernel, by decide +kernel,
    by decide, entryAt_blank (by decide +kernel), entryAt_blank (by decide +kernel),
    entryAt_blank (by decide +kernel), trivial⟩

/-- Two disk shares in front of the rest are listed. -/
theorem smbGetShareList_lists_disks :
    Lists (some 1) (alwaysAnswers disksFirstReply) disksFirst 8 noEntry := by
  have hserves : Serves (alwaysAnswers disksFirstReply) disksFirst :=
    ⟨⟨1, rfl⟩, fun _ => disksFirst_carried, ⟨0, rfl⟩⟩
  refine (smbGetShareList_lists_iff hserves 1 8 noEntry).mpr fun k d hd hk => ?_
  match k, hd with
  | 0, hd | 1, hd =>
      obtain rfl := Option.some.inj hd
      decide +kernel

def ipcFirst : List Share := [ipcShare, diskShare 0x41 (by decide), diskShare 0x42 (by decide)]

def ipcFirstReply : Packet :=
  listReply 3 (entryBytes ipcName 3 ++ entryBytes [0x41] 0 ++ entryBytes [0x42] 0)

theorem ipcFirst_carried : Carries ipcFirstReply ipcFirst :=
  ⟨by decide +kernel, by decide +kernel, by decide +kernel, by decide +kernel, by decide +kernel,
    by decide, entryAt_blank (by decide +kernel), entryAt_blank (by decide +kernel),
    entryAt_blank (by decide +kernel), trivial⟩

/-- Behind `IPC$` the first disk share is sent twice, and the second one not at all. -/
theorem smbGetShareList_repeats : Serves (alwaysAnswers ipcFirstReply) ipcFirst ∧
    (smbGetShareList (some 1) (alwaysAnswers ipcFirstReply) 8 noEntry).toOption.map
      (fun r => r.2.map ShareEntry.shareName) = some [[0x41], [0x41]] ∧
    ¬Lists (some 1) (alwaysAnswers ipcFirstReply) ipcFirst 8 noEntry := by
  refine ⟨⟨⟨1, rfl⟩, fun _ => ipcFirst_carried, ⟨0, rfl⟩⟩, by decide +kernel, fun h => ?_⟩
  have hplaces := congrArg (List.map Prod.snd) h.places
  exact absurd hplaces (by decide +kernel)

end BdmAssault.Smb
