import BdmAssault.Lib.Buffer
import BdmAssault.Lib.Components
import BdmAssault.Smb.Driver.Paths

/-! # The share and the root directory

`split_share_path` of `smb_fio.c` on its arrays, and the components of a path.
-/

namespace BdmAssault.Smb.Driver

open Lib

/-- The loop over the share. -/
def copyShare {shareSize : Nat} (configured : List UInt8) : Nat → Nat → Nat → Buffer shareSize →
    Option (Except Errno (Nat × Nat × Buffer shareSize))
  | 0, source, shareLength, share => some (.ok (source, shareLength, share))
  | rounds + 1, source, shareLength, share =>
      if source < shareSize then do
        let c ← configured[source]?
        if c ≠ 0 ∧ isSlash c = false then
          if shareSize - 1 ≤ shareLength then return .error .einval
          else
            let share ← share.put shareLength [c]
            copyShare configured rounds (source + 1) (shareLength + 1) share
        else return .ok (source, shareLength, share)
      else some (.ok (source, shareLength, share))

def skipSeparators (configured : List UInt8) (shareSize : Nat) : Nat → Nat → Option Nat
  | 0, source => some source
  | rounds + 1, source =>
      if source < shareSize then do
        let c ← configured[source]?
        if isSlash c then skipSeparators configured shareSize rounds (source + 1) else return source
      else some source

/-- `(source + 1 < shareSize) && (configured[source + 1] != '\0')` -/
def continues (configured : List UInt8) (shareSize next : Nat) : Option Bool :=
  if next < shareSize then configured[next]?.map fun c => decide (c ≠ 0) else some false

/-- The loop over the root directory. `next` is `source + 1` behind the inner loop. -/
def copyRoot {rootSize : Nat} (configured : List UInt8) (shareSize : Nat) : Nat → Nat → Nat →
    Buffer rootSize → Option (Except Errno (Nat × Nat × Buffer rootSize))
  | 0, source, rootLength, root => some (.ok (source, rootLength, root))
  | rounds + 1, source, rootLength, root =>
      if source < shareSize then do
        let c ← configured[source]?
        if c = 0 then return .ok (source, rootLength, root)
        else if isSlash c then
          let next ← skipSeparators configured shareSize shareSize (source + 1)
          let more ← continues configured shareSize next
          if more = true ∧ 0 < rootLength then
            if rootSize - 1 ≤ rootLength then return .error .einval
            else
              let root ← root.put rootLength [backslash]
              copyRoot configured shareSize rounds next (rootLength + 1) root
          else copyRoot configured shareSize rounds next rootLength root
        else if rootSize - 1 ≤ rootLength then return .error .einval
        else
          let root ← root.put rootLength [c]
          copyRoot configured shareSize rounds (source + 1) (rootLength + 1) root
      else some (.ok (source, rootLength, root))

/-- `split_share_path`; none of the three pointers is `NULL`. -/
def splitSharePathIn {shareSize rootSize : Nat} (configured : List UInt8) (share : Buffer shareSize)
    (root : Buffer rootSize) : Option (Except Errno (Buffer shareSize × Buffer rootSize)) :=
  if shareSize < 2 ∨ rootSize < 1 then some (.error .einval)
  else do
    match ← copyShare configured shareSize 0 0 share with
    | .error e => return .error e
    | .ok (source, shareLength, share) =>
        if shareLength = 0 ∨ shareSize ≤ source then return .error .einval
        else
          let share ← share.put shareLength [0]
          let source ← skipSeparators configured shareSize shareSize source
          match ← copyRoot configured shareSize shareSize source 0 root with
          | .error e => return .error e
          | .ok (source, rootLength, root) =>
              if shareSize ≤ source then return .error .einval
              else
                let root ← root.put rootLength [0]
                return .ok (share, root)

/-! ## What the parts are to be -/

/-- What is in front of the first slash. -/
def firstComponent (path : Name) : Name := path.takeWhile fun c => !isSlash c

/-- What is left from the first slash on. -/
def afterFirst (path : Name) : Name := path.dropWhile fun c => !isSlash c

/-- The components behind the first one, with single backslashes between them. -/
def rootOf (path : Name) : Name := [backslash].intercalate (components isSlash (afterFirst path))

/-! ## The root directory of a path -/

section RootLoop

variable {q run s w : Name} {c : UInt8}

/-- A run of slashes becomes one backslash, but not at either end. -/
theorem rootLoop_run (hrun : run ≠ []) (hslash : ∀ c ∈ run, isSlash c = true)
    (hs : ∀ c ∈ s.head?, isSlash c = false) :
    rootLoop (run ++ s) w = rootLoop s (if s ≠ [] ∧ w ≠ [] then w ++ [backslash] else w) := by
  induction run with
  | nil => exact absurd rfl hrun
  | cons c run ih =>
      have hc := hslash c List.mem_cons_self
      by_cases hlast : run = []
      · subst hlast
        rw [List.singleton_append, rootLoop, if_pos hc]
        cases s with
        | nil => rfl
        | cons d s =>
            have hd : isSlash d = false := hs d rfl
            by_cases hw : w = []
            · rw [if_neg fun h => h.2 hw, if_neg fun h => h.2 hw]
            · rw [if_pos ⟨by rw [List.head?_cons, Option.any_some, hd]; rfl, hw⟩,
                if_pos ⟨List.cons_ne_nil d s, hw⟩]
      · have hnext : ¬(((run ++ s).head?.any fun next => !isSlash next) ∧ w ≠ []) := by
          obtain ⟨d, run, rfl⟩ := List.exists_cons_of_ne_nil hlast
          rw [List.cons_append, List.head?_cons, Option.any_some,
            hslash d (List.mem_cons_of_mem c List.mem_cons_self)]
          exact fun h => nomatch h.1
        rw [List.cons_append, rootLoop, if_pos hc, if_neg hnext,
          ih hlast fun d hd => hslash d (List.mem_cons_of_mem c hd)]

theorem rootLoop_component (hq : ∀ c ∈ q, isSlash c = false) : rootLoop (q ++ s) w = rootLoop s (w ++ q) := by
  induction q generalizing w with
  | nil => rw [List.append_nil, List.nil_append]
  | cons c q ih =>
      rw [List.cons_append, rootLoop, if_neg (Bool.eq_false_iff.mp (hq c List.mem_cons_self)),
        ih fun d hd => hq d (List.mem_cons_of_mem c hd), List.append_assoc]
      rfl

/-- The loop appends the components that are left, with backslashes between them. -/
theorem rootLoop_eq (s w : Name) (hs : ∀ c ∈ s.head?, isSlash c = false) :
    rootLoop s w = w ++ [backslash].intercalate (components isSlash s) := by
  induction hn : s.length using Nat.strong_induction_on generalizing s w with
  | _ n ih =>
  by_cases hne : s = []
  · subst hne
    rw [rootLoop, components_nil, List.intercalate_nil, List.append_nil]
  · obtain ⟨q, r, rfl, hq, hr⟩ := exists_component hs hne
    rw [rootLoop_component hq.2, components_component hq hr]
    by_cases hend : r = []
    · subst hend
      rw [rootLoop, components_nil, List.intercalate_singleton]
    · have hsplit : r = r.takeWhile isSlash ++ r.dropWhile isSlash := List.takeWhile_append_dropWhile.symm
      have hrun : ∀ c ∈ r.takeWhile isSlash, isSlash c = true := fun c hc => List.mem_takeWhile_imp hc
      have hrest := head_dropWhile isSlash r
      have hrunne : r.takeWhile isSlash ≠ [] := by
        obtain ⟨d, r, rfl⟩ := List.exists_cons_of_ne_nil hend
        rw [List.takeWhile_cons_of_pos (hr d rfl)]
        exact List.cons_ne_nil d _
      have hwne : w ++ q ≠ [] := fun h => hq.1 (List.append_eq_nil_iff.mp h).2
      rw [hsplit, rootLoop_run hrunne hrun hrest, components_separators hrun]
      by_cases hlast : r.dropWhile isSlash = []
      · rw [hlast, if_neg fun h => h.1 rfl, rootLoop, components_nil, List.intercalate_singleton]
      · obtain ⟨q', r', hq', hcomponent, hr'⟩ := exists_component hrest hlast
        have hmore : components isSlash (r.dropWhile isSlash) ≠ [] := by
          rw [hq', components_component hcomponent hr']
          exact List.cons_ne_nil q' _
        have hless : (r.dropWhile isSlash).length < n := by
          have hlength := congrArg List.length hsplit
          have hpos := List.length_pos_iff.mpr hrunne
          rw [List.length_append] at hlength hn
          omega
        rw [if_pos ⟨hlast, hwne⟩, ih _ hless _ _ hrest rfl, List.intercalate_cons_of_ne_nil hmore]
        simp only [List.append_assoc]

theorem rootLoop_behind (path : Name) : rootLoop ((afterFirst path).dropWhile isSlash) [] = rootOf path := by
  have hsplit : (afterFirst path).takeWhile isSlash ++ (afterFirst path).dropWhile isSlash = afterFirst path :=
    List.takeWhile_append_dropWhile
  have hrun : ∀ c ∈ (afterFirst path).takeWhile isSlash, isSlash c = true :=
    fun c hc => List.mem_takeWhile_imp hc
  rw [rootLoop_eq _ [] (head_dropWhile isSlash _), List.nil_append, ← components_separators hrun, hsplit]
  rfl

/-- The root directory in the model of the operations. -/
theorem rootLoop_afterFirst (path : Name) : rootLoop (afterFirst path) [] = rootOf path := by
  rw [← rootLoop_behind]
  have hsplit : (afterFirst path).takeWhile isSlash ++ (afterFirst path).dropWhile isSlash = afterFirst path :=
    List.takeWhile_append_dropWhile
  by_cases hnone : (afterFirst path).takeWhile isSlash = []
  · rw [hnone, List.nil_append] at hsplit
    rw [hsplit]
  · have hloop := @rootLoop_run _ _ [] hnone (fun c hc => List.mem_takeWhile_imp hc)
      (head_dropWhile isSlash (afterFirst path))
    rwa [hsplit, if_neg fun h => h.2 rfl] at hloop

end RootLoop

/-! ## The loops -/

section Loops

variable {size shareSize n k rounds : Nat} {configured pre r s w old : Name} {c : UInt8}

theorem next_byte (h : configured = pre ++ c :: r) (hsize : configured.length = shareSize) :
    configured[pre.length]? = some c ∧ pre.length < shareSize := by
  constructor
  · rw [h, List.getElem?_append_right (Nat.le_refl _), Nat.sub_self]
    rfl
  · rw [← hsize, h, List.length_append, List.length_cons]
    omega

theorem no_byte (h : configured = pre ++ []) (hsize : configured.length = shareSize) :
    ¬pre.length < shareSize := by
  rw [← hsize, h, List.append_nil]
  exact Nat.lt_irrefl _

theorem skipSeparators_spec (h : configured = pre ++ r) (hsize : configured.length = shareSize)
    (hrounds : r.length ≤ rounds) :
    skipSeparators configured shareSize rounds pre.length =
      some (pre ++ r.takeWhile isSlash).length := by
  induction r generalizing pre rounds with
  | nil =>
      rw [List.takeWhile_nil, List.append_nil]
      cases rounds with
      | zero => rfl
      | succ rounds => exact if_neg (no_byte h hsize)
  | cons c r ih =>
      obtain ⟨rounds, rfl⟩ := Nat.exists_eq_succ_of_ne_zero
        (Nat.ne_of_gt (Nat.lt_of_lt_of_le (Nat.succ_pos _) hrounds))
      obtain ⟨hc, hlt⟩ := next_byte h hsize
      unfold skipSeparators
      rw [if_pos hlt, hc, Option.bind_eq_bind, Option.bind_some]
      by_cases hslash : isSlash c
      · rw [if_pos hslash, List.takeWhile_cons_of_pos hslash]
        rw [List.append_cons] at h ⊢
        have hnext := ih h (Nat.le_of_succ_le_succ hrounds)
        rwa [List.length_append, List.length_singleton] at hnext
      · rw [if_neg hslash, List.takeWhile_cons_of_neg hslash, List.append_nil]
        rfl

/-- A byte of the share. -/
def inShare (c : UInt8) : Bool := c ≠ 0 ∧ isSlash c = false

/-- The share is copied up to the terminator or a slash. -/
theorem copyShare_stops {share : Buffer shareSize} (h : configured = pre ++ r)
    (hsize : configured.length = shareSize) (hrounds : r.length ≤ rounds)
    (hbytes : share.bytes = pre ++ old) (hstop : (pre ++ r.takeWhile inShare).length < shareSize) :
    ∃ share' old', copyShare configured rounds pre.length pre.length share =
        some (.ok ((pre ++ r.takeWhile inShare).length, (pre ++ r.takeWhile inShare).length, share')) ∧
      share'.bytes = pre ++ r.takeWhile inShare ++ old' := by
  induction r generalizing pre rounds share old with
  | nil =>
      rw [List.takeWhile_nil, List.append_nil] at hstop
      exact absurd hstop (no_byte h hsize)
  | cons c r ih =>
      obtain ⟨rounds, rfl⟩ := Nat.exists_eq_succ_of_ne_zero
        (Nat.ne_of_gt (Nat.lt_of_lt_of_le (Nat.succ_pos _) hrounds))
      obtain ⟨hc, hlt⟩ := next_byte h hsize
      unfold copyShare
      rw [if_pos hlt, hc, Option.bind_eq_bind, Option.bind_some]
      by_cases hin : inShare c = true
      · rw [List.takeWhile_cons_of_pos hin] at hstop ⊢
        have hroom : ¬shareSize - 1 ≤ pre.length := by
          rw [List.length_append, List.length_cons] at hstop
          omega
        obtain ⟨share₁, hput, hbytes₁⟩ := Buffer.put_append [c] hbytes hlt
        rw [List.append_cons] at h hstop ⊢
        obtain ⟨share', old', hcopy, hbytes'⟩ := ih h (Nat.le_of_succ_le_succ hrounds) hbytes₁ hstop
        refine ⟨share', old', ?_, hbytes'⟩
        rw [if_pos (of_decide_eq_true hin), if_neg hroom, hput]
        rw [List.length_append, List.length_singleton] at hcopy
        exact hcopy
      · rw [List.takeWhile_cons_of_neg hin, List.append_nil]
        rw [if_neg fun hand => hin (decide_eq_true hand)]
        exact ⟨share, old, rfl, hbytes⟩

/-- A share without an end is refused before the array is left. -/
theorem copyShare_full {share : Buffer shareSize} (h : configured = pre ++ r)
    (hsize : configured.length = shareSize) (hrounds : r.length ≤ rounds) (hr : r ≠ [])
    (hbytes : share.bytes = pre ++ old) (hin : ∀ c ∈ r, inShare c = true) :
    copyShare configured rounds pre.length pre.length share = some (.error .einval) := by
  induction r generalizing pre rounds share old with
  | nil => exact absurd rfl hr
  | cons c r ih =>
      obtain ⟨rounds, rfl⟩ := Nat.exists_eq_succ_of_ne_zero
        (Nat.ne_of_gt (Nat.lt_of_lt_of_le (Nat.succ_pos _) hrounds))
      obtain ⟨hc, hlt⟩ := next_byte h hsize
      unfold copyShare
      rw [if_pos hlt, hc, Option.bind_eq_bind, Option.bind_some,
        if_pos (of_decide_eq_true (hin c List.mem_cons_self))]
      by_cases hlast : r = []
      · subst hlast
        rw [if_pos (by rw [← hsize, h, List.length_append, List.length_singleton]; omega)]
        rfl
      · have hroom : ¬shareSize - 1 ≤ pre.length := by
          have hpos := List.length_pos_iff.mpr hlast
          rw [← hsize, h, List.length_append, List.length_cons]
          omega
        obtain ⟨share₁, hput, hbytes₁⟩ := Buffer.put_append [c] hbytes hlt
        rw [List.append_cons] at h
        have hnext := ih h (Nat.le_of_succ_le_succ hrounds) hlast hbytes₁
          fun d hd => hin d (List.mem_cons_of_mem c hd)
        rw [List.length_append, List.length_singleton] at hnext
        rw [if_neg hroom, hput]
        exact hnext

theorem textOf_cons (hc : c ≠ 0) : textOf (c :: r) = c :: textOf r :=
  List.takeWhile_cons_of_pos (decide_eq_true hc)

theorem textOf_run (hrun : ∀ c ∈ r, isSlash c = true) : textOf (r ++ s) = r ++ textOf s :=
  List.takeWhile_append_of_pos fun c hc => decide_eq_true fun hzero => nomatch hzero ▸ hrun c hc

/-- Whether the byte behind a run of slashes continues the path. -/
theorem continues_eq (h : configured = pre ++ r) (hsize : configured.length = shareSize) :
    continues configured shareSize pre.length = some (decide (textOf r ≠ [])) := by
  unfold continues
  cases r with
  | nil => exact if_neg (no_byte h hsize)
  | cons c r =>
      obtain ⟨hc, hlt⟩ := next_byte h hsize
      rw [if_pos hlt, hc, Option.map_some]
      by_cases hzero : c = 0
      · subst hzero
        rfl
      · rw [textOf_cons hzero]
        exact congrArg some ((decide_eq_true hzero).trans (decide_eq_true (List.cons_ne_nil _ _)).symm)

/-- A run of separators in front of the rest of a path. -/
theorem textOf_separators (hslash : isSlash c = true) :
    textOf (c :: r) = (c :: r.takeWhile isSlash) ++ textOf (r.dropWhile isSlash) ∧
      rootLoop (textOf (c :: r)) w = rootLoop (textOf (r.dropWhile isSlash))
        (if textOf (r.dropWhile isSlash) ≠ [] ∧ w ≠ [] then w ++ [backslash] else w) := by
  have hrun : ∀ d ∈ c :: r.takeWhile isSlash, isSlash d = true := by
    intro d hd
    rcases List.mem_cons.mp hd with rfl | hd
    · exact hslash
    · exact List.mem_takeWhile_imp hd
  have hsplit : c :: r = (c :: r.takeWhile isSlash) ++ r.dropWhile isSlash := by
    rw [List.cons_append, List.takeWhile_append_dropWhile]
  have hhead : ∀ d ∈ (textOf (r.dropWhile isSlash)).head?, isSlash d = false := by
    intro d hd
    refine head_dropWhile isSlash r d ?_
    cases hrest : r.dropWhile isSlash with
    | nil => rw [hrest] at hd; cases hd
    | cons e rest =>
        rw [hrest] at hd
        by_cases he : e = 0
        · subst he
          cases hd
        · rwa [textOf_cons he] at hd
  have htext : textOf (c :: r) = (c :: r.takeWhile isSlash) ++ textOf (r.dropWhile isSlash) := by
    rw [← textOf_run hrun, ← hsplit]
  refine ⟨htext, ?_⟩
  rw [htext]
  exact rootLoop_run (List.cons_ne_nil c _) hrun hhead

/-- The root directory up to the terminator, or up to the end of the array. -/
theorem copyRoot_spec {root : Buffer size} (h : configured = pre ++ r)
    (hsize : configured.length = shareSize) (hrounds : r.length ≤ rounds) (hroot : shareSize ≤ size)
    (hbytes : root.bytes = w ++ old) (hk : k + w.length ≤ pre.length) (hpos : 1 ≤ k) :
    ∃ root' old', copyRoot configured shareSize rounds pre.length w.length root =
        some (.ok ((pre ++ textOf r).length, (rootLoop (textOf r) w).length, root')) ∧
      root'.bytes = rootLoop (textOf r) w ++ old' ∧
      k + (rootLoop (textOf r) w).length ≤ (pre ++ textOf r).length := by
  induction rounds generalizing pre r w root old with
  | zero =>
      obtain rfl := List.eq_nil_of_length_eq_zero (Nat.le_zero.mp hrounds)
      exact ⟨root, old, by rw [textOf, List.takeWhile_nil, List.append_nil]; rfl, hbytes,
        by rwa [textOf, List.takeWhile_nil, List.append_nil]⟩
  | succ rounds ih =>
      cases r with
      | nil =>
          rw [textOf, List.takeWhile_nil, List.append_nil]
          exact ⟨root, old, if_neg (no_byte h hsize), hbytes, hk⟩
      | cons c r =>
          obtain ⟨hc, hlt⟩ := next_byte h hsize
          have hshort := Nat.le_of_succ_le_succ hrounds
          unfold copyRoot
          rw [if_pos hlt, hc, Option.bind_eq_bind, Option.bind_some]
          by_cases hzero : c = 0
          · subst hzero
            rw [if_pos rfl]
            have hnone : textOf (0 :: r) = [] := rfl
            rw [hnone, List.append_nil]
            exact ⟨root, old, rfl, hbytes, hk⟩
          · rw [if_neg hzero]
            by_cases hslash : isSlash c
            · rw [if_pos hslash]
              have hbehind := h
              rw [List.append_cons] at hbehind
              have hrest : r.length ≤ shareSize := by
                rw [← hsize, h, List.length_append, List.length_cons]
                omega
              have hskip := skipSeparators_spec hbehind hsize hrest
              rw [List.length_append, List.length_singleton] at hskip
              rw [hskip, Option.bind_eq_bind, Option.bind_some]
              have hnext : configured = (pre ++ [c] ++ r.takeWhile isSlash) ++ r.dropWhile isSlash := by
                rw [List.append_assoc, List.takeWhile_append_dropWhile, hbehind]
              have hless : (r.dropWhile isSlash).length ≤ rounds :=
                Nat.le_trans (List.dropWhile_suffix isSlash).length_le hshort
              obtain ⟨htext, hloop⟩ := @textOf_separators r w c hslash
              have hpath : pre ++ textOf (c :: r) =
                  (pre ++ [c] ++ r.takeWhile isSlash) ++ textOf (r.dropWhile isSlash) := by
                rw [htext, ← List.append_assoc, List.append_cons]
              rw [continues_eq hnext hsize, Option.bind_eq_bind, Option.bind_some, hpath, hloop]
              by_cases hmore : textOf (r.dropWhile isSlash) ≠ [] ∧ w ≠ []
              · rw [if_pos hmore]
                have hroom : ¬size - 1 ≤ w.length := by omega
                obtain ⟨root₁, hput, hbytes₁⟩ := Buffer.put_append [backslash] hbytes
                  (by rw [List.length_singleton]; omega)
                have hk₁ : k + (w ++ [backslash]).length ≤ (pre ++ [c] ++ r.takeWhile isSlash).length := by
                  rw [List.length_append, List.length_append, List.length_append, List.length_singleton,
                    List.length_singleton]
                  omega
                obtain ⟨root', old', hcopy, hbytes', hk'⟩ := ih hnext hless hbytes₁ hk₁
                refine ⟨root', old', ?_, hbytes', hk'⟩
                rw [if_pos ⟨decide_eq_true hmore.1, List.length_pos_iff.mpr hmore.2⟩, if_neg hroom, hput]
                rwa [show (w ++ [backslash]).length = w.length + 1 from List.length_append] at hcopy
              · rw [if_neg hmore]
                have hk₁ : k + w.length ≤ (pre ++ [c] ++ r.takeWhile isSlash).length := by
                  rw [List.length_append, List.length_append]
                  omega
                have hflag : ¬(decide (textOf (r.dropWhile isSlash) ≠ []) = true ∧ 0 < w.length) :=
                  fun h => hmore ⟨of_decide_eq_true h.1, List.length_pos_iff.mp h.2⟩
                rw [if_neg hflag]
                exact ih hnext hless hbytes hk₁
            · have hroom : ¬size - 1 ≤ w.length := by omega
              obtain ⟨root₁, hput, hbytes₁⟩ := Buffer.put_append [c] hbytes
                (by rw [List.length_singleton]; omega)
              rw [List.append_cons] at h
              have hk₁ : k + (w ++ [c]).length ≤ (pre ++ [c]).length := by
                rw [List.length_append, List.length_append, List.length_singleton]
                omega
              obtain ⟨root', old', hcopy, hbytes', hk'⟩ := ih h hshort hbytes₁ hk₁
              rw [if_neg hslash, textOf_cons hzero, List.append_cons, rootLoop, if_neg hslash]
              refine ⟨root', old', ?_, hbytes', hk'⟩
              rw [if_neg hroom, hput]
              rwa [show (w ++ [c]).length = w.length + 1 from List.length_append,
                show (pre ++ [c]).length = pre.length + 1 from List.length_append] at hcopy

end Loops

/-! ## The result -/

section Result

variable {size : Nat} {configured t rest : Name}

/-- The function on an array whose share ends: `q` is the share, `run` the slashes behind it. -/
theorem split_run {q run r : Name} (share root : Buffer size) (h : configured = q ++ (run ++ r))
    (hsize : configured.length = size) (htwo : 2 ≤ size) (hq : ∀ c ∈ q, inShare c = true)
    (hstop : ∀ c ∈ (run ++ r).head?, inShare c = false) (hmore : run ++ r ≠ [])
    (hrun : ∀ c ∈ run, isSlash c = true) (hr : ∀ c ∈ r.head?, isSlash c = false) (hne : q ≠ []) :
    ∃ (share' root₁ : Buffer size) (old old' : Name), share'.bytes = q ++ 0 :: old ∧
      root₁.bytes = rootLoop (textOf r) [] ++ old' ∧
      (q ++ run).length + (rootLoop (textOf r) []).length ≤ (q ++ run ++ textOf r).length ∧
      splitSharePathIn configured share root =
        if size ≤ (q ++ run ++ textOf r).length then some (.error .einval)
        else (root₁.put (rootLoop (textOf r) []).length [0]).map fun root => .ok (share', root) := by
  have hqless : q.length < size := by
    have hpos := List.length_pos_iff.mpr hmore
    rw [← hsize, h, List.length_append]
    omega
  have hqpos := List.length_pos_iff.mpr hne
  have htake : ([] ++ configured.takeWhile inShare : Name) = q := by
    rw [h, takeWhile_front hq hstop]
    rfl
  obtain ⟨share₁, old, hcopy, hbytes⟩ := copyShare_stops (List.nil_append configured).symm hsize
    (Nat.le_of_eq hsize) (List.nil_append share.bytes).symm (by rw [htake]; exact hqless)
  rw [htake] at hcopy hbytes
  obtain ⟨share', hput, hbytes'⟩ := Buffer.put_append [0] hbytes hqless
  have hrest : (run ++ r).length ≤ size := by
    have hlength := congrArg List.length h
    rw [List.length_append, hsize] at hlength
    omega
  have hskip := skipSeparators_spec h hsize hrest
  rw [takeWhile_front hrun hr] at hskip
  have hroot : configured = (q ++ run) ++ r := by rw [h, List.append_assoc]
  have hrless : r.length ≤ size := by
    rw [List.length_append] at hrest
    omega
  obtain ⟨root₁, old', hcopyRoot, hbytesRoot, hk⟩ := copyRoot_spec hroot hsize hrless (Nat.le_refl size)
    (List.nil_append root.bytes).symm (Nat.le_refl (q ++ run).length)
    (by rw [List.length_append]; omega)
  refine ⟨share', root₁, _, old', by rw [hbytes', List.append_assoc]; rfl, hbytesRoot, hk, ?_⟩
  unfold splitSharePathIn
  rw [if_neg (by omega)]
  simp only [List.length_nil] at hcopy hcopyRoot
  simp only [hcopy, hput, hskip, hcopyRoot, Option.bind_eq_bind, Option.bind_some]
  rw [if_neg (by omega)]
  rw [Option.map_eq_bind]
  rfl

theorem split_refuses_first (share root : Buffer size) (hsize : configured.length = size) (htwo : 2 ≤ size)
    (hfirst : configured.takeWhile inShare = []) :
    splitSharePathIn configured share root = some (.error .einval) := by
  obtain ⟨share₁, old, hcopy, -⟩ := copyShare_stops (List.nil_append configured).symm hsize
    (Nat.le_of_eq hsize) (List.nil_append share.bytes).symm (by rw [hfirst]; exact Nat.lt_of_succ_lt htwo)
  rw [hfirst] at hcopy
  unfold splitSharePathIn
  rw [if_neg (by omega)]
  simp only [List.append_nil, List.length_nil] at hcopy
  rw [hcopy, Option.bind_eq_bind, Option.bind_some]
  exact if_pos (Or.inl rfl)

theorem inShare_eq_false {c : UInt8} : inShare c = false ↔ c = 0 ∨ isSlash c = true := by
  unfold inShare
  rw [decide_eq_false_iff_not, not_and_or, not_not, Bool.not_eq_false]

/-- The array behind the share, without the slashes that follow it. -/
theorem split_parts (configured : Name) : ∃ run r, configured = configured.takeWhile inShare ++ (run ++ r) ∧
    run ++ r = configured.dropWhile inShare ∧ (∀ c ∈ run, isSlash c = true) ∧
    (∀ c ∈ r.head?, isSlash c = false) ∧ ∀ c ∈ (run ++ r).head?, inShare c = false := by
  have hsplit : (configured.dropWhile inShare).takeWhile isSlash ++ (configured.dropWhile inShare).dropWhile isSlash =
      configured.dropWhile inShare := List.takeWhile_append_dropWhile
  refine ⟨_, _, ?_, hsplit, fun c hc => List.mem_takeWhile_imp hc, head_dropWhile isSlash _, ?_⟩
  · rw [hsplit, List.takeWhile_append_dropWhile]
  · rw [hsplit]
    exact head_dropWhile inShare configured

/-- An array without a terminator is refused. -/
theorem split_refuses_unterminated (share root : Buffer size) (hsize : configured.length = size)
    (htwo : 2 ≤ size) (h : 0 ∉ configured) :
    splitSharePathIn configured share root = some (.error .einval) := by
  obtain ⟨run, r, hconf, hrest, hrun, hr, hstop⟩ := split_parts configured
  by_cases hfirst : configured.takeWhile inShare = []
  · exact split_refuses_first share root hsize htwo hfirst
  · by_cases hend : run ++ r = []
    · have hall : ∀ c ∈ configured, inShare c = true := by
        rw [hend, List.append_nil] at hconf
        intro c hc
        rw [hconf] at hc
        exact List.mem_takeWhile_imp hc
      have hne : configured ≠ [] := fun hnil => by
        rw [hnil] at hsize
        exact absurd (hsize ▸ htwo) (by decide)
      have hcopy := copyShare_full (List.nil_append configured).symm hsize (Nat.le_of_eq hsize) hne
        (List.nil_append share.bytes).symm hall
      unfold splitSharePathIn
      rw [if_neg (by omega)]
      rw [List.length_nil] at hcopy
      rw [hcopy]
      rfl
    · obtain ⟨share', root₁, old, old', -, -, -, hresult⟩ := split_run share root hconf hsize htwo
        (fun c hc => List.mem_takeWhile_imp hc) hstop hend hrun hr hfirst
      have hnozero : 0 ∉ r := by
        rw [hconf] at h
        exact fun hzero => h (List.mem_append_right _ (List.mem_append_right _ hzero))
      rw [textOf_of_not_mem hnozero, List.append_assoc, ← hconf, hsize, if_pos (Nat.le_refl size)] at hresult
      exact hresult

theorem afterFirst_head (path : Name) : ∀ c ∈ (afterFirst path).head?, isSlash c = true := by
  intro c hc
  have hnot := head_dropWhile (fun c => !isSlash c) path c hc
  rwa [Bool.not_eq_false'] at hnot

theorem firstComponent_append (t : Name) : firstComponent t ++ afterFirst t = t :=
  List.takeWhile_append_dropWhile

/-- The first component ends in front of the terminator. -/
theorem firstComponent_inShare (ht : 0 ∉ t) : ∀ c ∈ firstComponent t, inShare c = true := by
  intro c hc
  have hslash := List.mem_takeWhile_imp hc
  rw [Bool.not_eq_true'] at hslash
  refine decide_eq_true ⟨?_, hslash⟩
  rintro rfl
  exact ht ((List.takeWhile_prefix _).subset hc)

theorem afterFirst_stops (t rest : Name) : ∀ c ∈ (afterFirst t ++ 0 :: rest).head?, inShare c = false := by
  intro c hc
  rw [inShare_eq_false]
  cases hafter : afterFirst t with
  | nil =>
      rw [hafter] at hc
      exact Or.inl (Option.some.inj hc).symm
  | cons d l =>
      rw [hafter] at hc
      exact Or.inr (afterFirst_head t c (by rw [hafter]; exact hc))

theorem split_accepts (share root : Buffer size) (hsize : (t ++ 0 :: rest).length = size) (htwo : 2 ≤ size)
    (ht : 0 ∉ t) (hfirst : firstComponent t ≠ []) :
    ∃ (share' root' : Buffer size) (old old' : Name),
      splitSharePathIn (t ++ 0 :: rest) share root = some (.ok (share', root')) ∧
      share'.bytes = firstComponent t ++ 0 :: old ∧ root'.bytes = rootOf t ++ 0 :: old' ∧
      (rootOf t ≠ [] → (firstComponent t).length + (rootOf t).length + 2 ≤ size) := by
  have hafter : (afterFirst t).takeWhile isSlash ++ ((afterFirst t).dropWhile isSlash ++ 0 :: rest) =
      afterFirst t ++ 0 :: rest := by
    rw [← List.append_assoc, List.takeWhile_append_dropWhile]
  have hconf : t ++ 0 :: rest = firstComponent t ++
      ((afterFirst t).takeWhile isSlash ++ ((afterFirst t).dropWhile isSlash ++ 0 :: rest)) := by
    rw [hafter, ← List.append_assoc, firstComponent_append]
  have hr : ∀ c ∈ ((afterFirst t).dropWhile isSlash ++ 0 :: rest).head?, isSlash c = false := by
    intro c hc
    cases hbehind : (afterFirst t).dropWhile isSlash with
    | nil =>
        rw [hbehind] at hc
        cases hc
        rfl
    | cons d l =>
        rw [hbehind] at hc
        exact head_dropWhile isSlash (afterFirst t) c (by rw [hbehind]; exact hc)
  have hnozero : 0 ∉ (afterFirst t).dropWhile isSlash := fun h =>
    ht ((List.dropWhile_suffix _).subset ((List.dropWhile_suffix _).subset h))
  obtain ⟨share', root₁, old, old', hshare, hroot, hk, hresult⟩ := split_run share root hconf hsize htwo
    (firstComponent_inShare ht) (by rw [hafter]; exact afterFirst_stops t rest) (by simp)
    (fun c hc => List.mem_takeWhile_imp hc) hr hfirst
  have hsource : firstComponent t ++ (afterFirst t).takeWhile isSlash ++ (afterFirst t).dropWhile isSlash = t := by
    rw [List.append_assoc, List.takeWhile_append_dropWhile, firstComponent_append]
  rw [textOf_append hnozero, hsource] at hresult hk
  rw [textOf_append hnozero] at hroot
  rw [rootLoop_behind] at hresult hroot hk
  have hless : t.length < size := by
    rw [List.length_append, List.length_cons] at hsize
    omega
  rw [List.length_append] at hk
  obtain ⟨root', hput, hbytes⟩ := Buffer.put_append [0] hroot (by rw [List.length_singleton]; omega)
  rw [if_neg (by omega), hput] at hresult
  refine ⟨share', root', old, _, hresult, hshare, by rw [hbytes, List.append_assoc]; rfl, fun hne => ?_⟩
  have hslash : 0 < ((afterFirst t).takeWhile isSlash).length := by
    refine List.length_pos_iff.mpr fun hnone => hne ?_
    unfold rootOf
    cases hbehind : afterFirst t with
    | nil => rfl
    | cons c l =>
        rw [hbehind, List.takeWhile_cons_of_pos (afterFirst_head t c (by rw [hbehind]; rfl))] at hnone
        cases hnone
  omega

end Result

/-! ## What is read -/

/-- Two arrays with the same bytes up to `n`, where the terminator is or the size ends. -/
structure ReadAlike (size n : Nat) (a b : List UInt8) : Prop where
  same : ∀ i, i < size → i ≤ n → a[i]? = b[i]?
  stop : n < size → b[n]? = some 0

section Reads

variable {shareSize rootSize n source : Nat} {a b : List UInt8}

/-- No loop goes on behind the terminator. -/
theorem ReadAlike.next (h : ReadAlike shareSize n a b) {c : UInt8} (hlt : source < shareSize) (hsource : source ≤ n)
    (hc : b[source]? = some c) (hne : c ≠ 0) : source + 1 ≤ n := by
  rcases Nat.lt_or_eq_of_le hsource with hless | rfl
  · exact hless
  · exact absurd (Option.some.inj (hc.symm.trans (h.stop hlt))) hne

theorem copyShare_alike (h : ReadAlike shareSize n a b) (rounds shareLength : Nat) (share : Buffer shareSize)
    (hsource : source ≤ n) :
    copyShare a rounds source shareLength share = copyShare b rounds source shareLength share ∧
      ∀ last length share', copyShare b rounds source shareLength share = some (.ok (last, length, share')) →
        last ≤ n := by
  induction rounds generalizing source shareLength share with
  | zero =>
      refine ⟨rfl, fun last length share' hok => ?_⟩
      cases hok
      exact hsource
  | succ rounds ih =>
      unfold copyShare
      split
      · rename_i hlt
        rw [h.same source hlt hsource]
        cases hc : b[source]? with
        | none => exact ⟨rfl, nofun⟩
        | some c =>
            simp only [Option.bind_eq_bind, Option.bind_some]
            split
            · rename_i hgoes
              split
              · exact ⟨rfl, nofun⟩
              · cases hput : share.put shareLength [c] with
                | none => exact ⟨rfl, nofun⟩
                | some share => exact ih (shareLength + 1) share (h.next hlt hsource hc hgoes.1)
            · refine ⟨rfl, fun last length share' hok => ?_⟩
              cases hok
              exact hsource
      · refine ⟨rfl, fun last length share' hok => ?_⟩
        cases hok
        exact hsource

theorem skipSeparators_alike (h : ReadAlike shareSize n a b) (rounds : Nat) (hsource : source ≤ n) :
    skipSeparators a shareSize rounds source = skipSeparators b shareSize rounds source ∧
      ∀ next, skipSeparators b shareSize rounds source = some next → next ≤ n := by
  induction rounds generalizing source with
  | zero => exact ⟨rfl, fun next hnext => Option.some.inj hnext ▸ hsource⟩
  | succ rounds ih =>
      unfold skipSeparators
      split
      · rename_i hlt
        rw [h.same source hlt hsource]
        cases hc : b[source]? with
        | none => exact ⟨rfl, nofun⟩
        | some c =>
            simp only [Option.bind_eq_bind, Option.bind_some]
            split
            · rename_i hslash
              have hne : c ≠ 0 := by
                rintro rfl
                cases hslash
              exact ih (h.next hlt hsource hc hne)
            · exact ⟨rfl, fun next hnext => Option.some.inj hnext ▸ hsource⟩
      · exact ⟨rfl, fun next hnext => Option.some.inj hnext ▸ hsource⟩

theorem continues_alike (h : ReadAlike shareSize n a b) {next : Nat} (hnext : next ≤ n) :
    continues a shareSize next = continues b shareSize next := by
  unfold continues
  split
  · rename_i hlt
    rw [h.same next hlt hnext]
  · rfl

theorem copyRoot_alike (h : ReadAlike shareSize n a b) (rounds rootLength : Nat) (root : Buffer rootSize)
    (hsource : source ≤ n) :
    copyRoot a shareSize rounds source rootLength root = copyRoot b shareSize rounds source rootLength root := by
  induction rounds generalizing source rootLength root with
  | zero => rfl
  | succ rounds ih =>
      unfold copyRoot
      split
      · rename_i hlt
        rw [h.same source hlt hsource]
        cases hc : b[source]? with
        | none => rfl
        | some c =>
            simp only [Option.bind_eq_bind, Option.bind_some]
            split
            · rfl
            rename_i hne
            have hbehind := h.next hlt hsource hc hne
            split
            · obtain ⟨hskip, hle⟩ := skipSeparators_alike h shareSize hbehind
              rw [hskip]
              cases hnext : skipSeparators b shareSize shareSize (source + 1) with
              | none => rfl
              | some next =>
                  have hmore := hle next hnext
                  simp only [Option.bind_some, continues_alike h hmore, ih _ _ hmore]
            · simp only [ih _ _ hbehind]
      · rfl

theorem splitSharePathIn_alike (h : ReadAlike shareSize n a b) (share : Buffer shareSize) (root : Buffer rootSize) :
    splitSharePathIn a share root = splitSharePathIn b share root := by
  unfold splitSharePathIn
  split
  · rfl
  obtain ⟨hcopy, hle⟩ := copyShare_alike h shareSize 0 share (Nat.zero_le n)
  rw [hcopy]
  cases hshare : copyShare b shareSize 0 0 share with
  | none => rfl
  | some result =>
      match result with
      | .error e => rfl
      | .ok (source, shareLength, share) =>
          obtain ⟨hskip, hnext⟩ := skipSeparators_alike h shareSize (hle source shareLength share hshare)
          simp only [Option.bind_eq_bind, Option.bind_some]
          rw [hskip]
          split
          · rfl
          cases hbehind : skipSeparators b shareSize shareSize source with
          | none => rfl
          | some next => simp only [Option.bind_some, copyRoot_alike h _ _ _ (hnext next hbehind)]

/-- Nothing behind the size is read. -/
theorem splitSharePathIn_take (configured : List UInt8) (share : Buffer shareSize) (root : Buffer rootSize) :
    splitSharePathIn (configured.take shareSize) share root = splitSharePathIn configured share root :=
  splitSharePathIn_alike ⟨fun _ hi _ => List.getElem?_take_of_lt hi, fun h => absurd h (Nat.lt_irrefl shareSize)⟩
    share root

/-- Nothing behind the terminator is read. -/
theorem splitSharePathIn_behind (path rest rest' : Name) (share : Buffer shareSize) (root : Buffer rootSize) :
    splitSharePathIn (path ++ 0 :: rest) share root = splitSharePathIn (path ++ 0 :: rest') share root := by
  have hfront : ∀ (i : Nat) (rest : Name), i ≤ path.length → (path ++ 0 :: rest)[i]? = (path ++ [0])[i]? := by
    intro i rest hi
    rw [List.append_cons]
    exact List.getElem?_append_left (by rw [List.length_append, List.length_singleton]; omega)
  refine splitSharePathIn_alike (n := path.length) ⟨fun i _ hi => ?_, fun _ => ?_⟩ share root
  · rw [hfront i rest hi, hfront i rest' hi]
  · rw [List.getElem?_append_right (Nat.le_refl _), Nat.sub_self]
    rfl

/-- The terminator of a path is in the array of the size, whatever is behind it. -/
theorem exists_padding {size : Nat} {path : Name} (hless : path.length < size) :
    ∃ rest : Name, (path ++ 0 :: rest).length = size := by
  refine ⟨List.replicate (size - path.length - 1) 0, ?_⟩
  rw [List.length_append, List.length_cons, List.length_replicate]
  omega

end Reads

/-! ## The parts are found again -/

theorem rootOf_joined {q w : Name} (hq : ∀ c ∈ q, isSlash c = false) :
    firstComponent (q ++ backslash :: w) = q ∧
      rootOf (q ++ backslash :: w) = [backslash].intercalate (components isSlash w) := by
  have hslash : ∀ c ∈ q, (!isSlash c) = true := fun c hc => by rw [hq c hc]; rfl
  have hfirst : firstComponent (q ++ backslash :: w) = q :=
    takeWhile_front hslash fun c hc => by cases hc; rfl
  have hbehind : afterFirst (q ++ backslash :: w) = backslash :: w := by
    have happend := firstComponent_append (q ++ backslash :: w)
    rw [hfirst] at happend
    exact List.append_cancel_left happend
  refine ⟨hfirst, ?_⟩
  unfold rootOf
  rw [hbehind, components_separator (by rfl)]

theorem rootOf_again {q path : Name} (hq : ∀ c ∈ q, isSlash c = false) :
    rootOf (q ++ backslash :: rootOf path) = rootOf path := by
  rw [(rootOf_joined hq).2]
  unfold rootOf
  rw [components_intercalate (by rfl) fun c hc => component_of_mem hc]


/-- The strings of both results are the share and the root directory of `path`. -/
def SplitInto {size : Nat} (path : Name) (r : Buffer size × Buffer size) : Prop :=
  r.1.Terminated ∧ r.1.text = firstComponent path ∧ r.2.Terminated ∧ r.2.text = rootOf path

/-- The share, a backslash and the root directory. -/
def joinedShare {size : Nat} (r : Buffer size × Buffer size) : Name := r.1.text ++ backslash :: r.2.text

section Split

variable {size : Nat} {configured path rest : Name}

theorem holds_text {b : Buffer size} (h : b.bytes = path ++ 0 :: rest) (hpath : 0 ∉ path) :
    b.Terminated ∧ b.text = path := by
  constructor
  · show 0 ∈ b.bytes
    rw [h]
    exact List.mem_append_right _ List.mem_cons_self
  · show textOf b.bytes = path
    rw [h, textOf_append hpath]

theorem mem_rootLoop {c : UInt8} {s w : Name} (h : c ∈ rootLoop s w) : c ∈ s ∨ c ∈ w ∨ c = backslash := by
  induction s generalizing w with
  | nil => exact Or.inr (Or.inl h)
  | cons d s ih =>
      rw [rootLoop] at h
      split at h
      · split at h
        · rcases ih h with h | h | h
          · exact Or.inl (List.mem_cons_of_mem d h)
          · rcases List.mem_append.mp h with h | h
            · exact Or.inr (Or.inl h)
            · exact Or.inr (Or.inr (List.mem_singleton.mp h))
          · exact Or.inr (Or.inr h)
        · rcases ih h with h | h
          · exact Or.inl (List.mem_cons_of_mem d h)
          · exact Or.inr h
      · rcases ih h with h | h | h
        · exact Or.inl (List.mem_cons_of_mem d h)
        · rcases List.mem_append.mp h with h | h
          · exact Or.inr (Or.inl h)
          · exact Or.inl (List.mem_singleton.mp h ▸ List.mem_cons_self)
        · exact Or.inr (Or.inr h)

theorem zero_not_mem_rootOf (h : 0 ∉ path) : 0 ∉ rootOf path := by
  rw [← rootLoop_afterFirst]
  intro hzero
  rcases mem_rootLoop hzero with hzero | hzero | hzero
  · exact h ((List.dropWhile_suffix _).subset hzero)
  · exact nomatch hzero
  · exact absurd hzero (by decide)

theorem zero_not_mem_firstComponent (h : 0 ∉ path) : 0 ∉ firstComponent path :=
  fun hzero => h ((List.takeWhile_prefix _).subset hzero)

theorem split_refuses_empty (share root : Buffer size) (htwo : 2 ≤ size) (hless : path.length < size)
    (hfirst : firstComponent path = []) :
    splitSharePathIn (path ++ 0 :: rest) share root = some (.error .einval) := by
  obtain ⟨rest', hsize⟩ := exists_padding hless
  rw [splitSharePathIn_behind path rest rest']
  refine split_refuses_first share root hsize htwo ?_
  have hnone := firstComponent_append path
  rw [hfirst, List.nil_append] at hnone
  have hstop := afterFirst_stops path rest'
  rw [hnone] at hstop
  exact takeWhile_front (l := []) (fun c hc => nomatch hc) hstop

theorem splitSharePathIn_of_text (share root : Buffer size) (htwo : 2 ≤ size) (hpath : 0 ∉ path)
    (hless : path.length < size) (hfirst : firstComponent path ≠ []) :
    ∃ r, splitSharePathIn (path ++ 0 :: rest) share root = some (.ok r) ∧ SplitInto path r ∧
      (rootOf path ≠ [] → (joinedShare r).length < size) := by
  obtain ⟨rest', hsize⟩ := exists_padding hless
  rw [splitSharePathIn_behind path rest rest']
  obtain ⟨share', root', old, old', hsplit, hshare, hroot, hroom⟩ :=
    split_accepts share root hsize htwo hpath hfirst
  have hshare' := holds_text hshare (zero_not_mem_firstComponent hpath)
  have hroot' := holds_text hroot (zero_not_mem_rootOf hpath)
  refine ⟨(share', root'), hsplit, ⟨hshare'.1, hshare'.2, hroot'.1, hroot'.2⟩, fun hne => ?_⟩
  unfold joinedShare
  rw [hshare'.2, hroot'.2, List.length_append, List.length_cons]
  have hfits := hroom hne
  omega

theorem joinedShare_again {r : Buffer size × Buffer size} (htwo : 2 ≤ size) (hpath : 0 ∉ path)
    (hr : SplitInto path r) (hne : firstComponent path ≠ []) (hless : (joinedShare r).length < size)
    (share root : Buffer size) :
    ∃ r', splitSharePathIn (joinedShare r ++ 0 :: rest) share root = some (.ok r') ∧
      r'.1.text = r.1.text ∧ r'.2.text = r.2.text := by
  have hq : ∀ c ∈ firstComponent path, isSlash c = false := by
    intro c hc
    have hslash := List.mem_takeWhile_imp hc
    rwa [Bool.not_eq_true'] at hslash
  have hjoined : joinedShare r = firstComponent path ++ backslash :: rootOf path := by
    rw [joinedShare, hr.2.1, hr.2.2.2]
  have hnozero : 0 ∉ joinedShare r := by
    rw [hjoined]
    intro hzero
    rcases List.mem_append.mp hzero with hzero | hzero
    · exact zero_not_mem_firstComponent hpath hzero
    · rcases List.mem_cons.mp hzero with hzero | hzero
      · exact absurd hzero (by decide)
      · exact zero_not_mem_rootOf hpath hzero
  have hfirst : firstComponent (joinedShare r) = firstComponent path := by
    rw [hjoined, (rootOf_joined hq).1]
  obtain ⟨r', hsplit, hr', -⟩ := splitSharePathIn_of_text share root htwo hnozero hless (by rwa [hfirst])
  refine ⟨r', hsplit, ?_, ?_⟩
  · rw [hr'.2.1, hfirst, hr.2.1]
  · rw [hr'.2.2.2, hr.2.2.2, hjoined, rootOf_again hq]

end Split

/-- The model of the operations splits the string in the same way. -/
theorem splitSharePath_eq {path : Name} (hfirst : firstComponent path ≠ []) (hlength : path.length < 256) :
    splitSharePath path = some (firstComponent path, rootOf path) := by
  rw [← rootLoop_afterFirst]
  exact if_neg (not_or.mpr ⟨hfirst, Nat.not_le.mpr hlength⟩)

/-- The parts of a configured path; an array that cannot hold them again with their terminator
is refused. -/
theorem split_share_path {size : Nat} (htwo : 2 ≤ size) {configured : List UInt8}
    (hbytes : 0 ∈ configured ∨ size ≤ configured.length) (share root : Buffer size) :
    splitSharePathIn (configured.take size) share root = splitSharePathIn configured share root ∧
    ∃ result, splitSharePathIn configured share root = some result ∧
      (result.isOk ↔
        0 ∈ configured.take size ∧ firstComponent (textOf (configured.take size)) ≠ []) ∧
      ∀ r, result = .ok r → SplitInto (textOf (configured.take size)) r ∧
        (r.2.text ≠ [] ∨ r.1.text.length + 2 ≤ size → (joinedShare r).length < size) ∧
        ∀ (rest : List UInt8) (share₁ root₁ : Buffer size), (joinedShare r).length < size →
          ∃ r', splitSharePathIn (joinedShare r ++ 0 :: rest) share₁ root₁ = some (.ok r') ∧
            r'.1.text = r.1.text ∧ r'.2.text = r.2.text := by
  refine ⟨splitSharePathIn_take configured share root, ?_⟩
  rw [← splitSharePathIn_take]
  have hlength : (configured.take size).length ≤ size := List.length_take_le size configured
  by_cases hzero : 0 ∈ configured.take size
  · obtain ⟨rest, hconf⟩ := exists_textOf hzero
    have hpath : 0 ∉ textOf (configured.take size) := zero_not_mem_textOf
    generalize textOf (configured.take size) = path at hconf hpath ⊢
    rw [hconf] at hlength hzero ⊢
    have hless : path.length < size := by
      rw [List.length_append, List.length_cons] at hlength
      omega
    by_cases hfirst : firstComponent path = []
    · refine ⟨_, split_refuses_empty share root htwo hless hfirst, ?_, nofun⟩
      exact iff_of_false nofun fun h => h.2 hfirst
    · obtain ⟨r, hsplit, hr, hroom⟩ := splitSharePathIn_of_text share root htwo hpath hless hfirst
      refine ⟨_, hsplit, iff_of_true rfl ⟨hzero, hfirst⟩, ?_⟩
      rintro _ ⟨⟩
      refine ⟨hr, fun h => ?_, fun rest share₁ root₁ hfits =>
        joinedShare_again htwo hpath hr hfirst hfits share₁ root₁⟩
      by_cases hne : rootOf path = []
      · have hshort := h.resolve_left fun h => h (hr.2.2.2.trans hne)
        unfold joinedShare
        rw [hr.2.2.2, hne, List.length_append, List.length_singleton]
        omega
      · exact hroom hne
  · -- a shorter array would have its terminator in it
    have hsize : (configured.take size).length = size := by
      rw [List.length_take]
      refine Nat.min_eq_left (Nat.le_of_not_lt fun hshort => ?_)
      refine hzero ?_
      rw [List.take_of_length_le (Nat.le_of_lt hshort)]
      exact hbytes.resolve_right (Nat.not_le.mpr hshort)
    refine ⟨_, split_refuses_unterminated share root hsize htwo hzero, ?_, nofun⟩
    exact iff_of_false nofun fun h => hzero h.1

/-- A share with a directory. -/
theorem split_share_path_games : ∃ r,
    splitSharePathIn [0x61, 0x2f, 0x5c, 0x62, 0x2f, 0] (Buffer.cleared 6) (Buffer.cleared 6) = some (.ok r) ∧
      SplitInto [0x61, 0x2f, 0x5c, 0x62, 0x2f] r := by
  obtain ⟨-, result, hsplit, hiff, hparts⟩ := @split_share_path 6 (by decide)
    [0x61, 0x2f, 0x5c, 0x62, 0x2f, 0] (.inl (by decide)) (Buffer.cleared 6) (Buffer.cleared 6)
  have hok := hiff.mpr (by decide)
  match result, hok with
  | .ok r, _ => exact ⟨r, hsplit, (hparts r rfl).1⟩

/-- A share of all the bytes that an array has in front of the terminator. -/
theorem full_share_not_found_again :
    ∃ share root : Buffer 2, splitSharePathIn [0x61, 0] (Buffer.cleared 2) (Buffer.cleared 2) =
        some (.ok (share, root)) ∧ share.text = [0x61] ∧ root.text = [] ∧
      splitSharePathIn (share.text ++ backslash :: root.text ++ [0]) (Buffer.cleared 2) (Buffer.cleared 2) =
        some (.error .einval) :=
  ⟨⟨[0x61, 0], rfl⟩, ⟨[0, 0], rfl⟩, rfl, rfl, rfl, rfl⟩

end BdmAssault.Smb.Driver
