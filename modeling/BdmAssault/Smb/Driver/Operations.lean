import BdmAssault.Smb.Driver.Paths

/-! # The operations of the SMB driver

The file, directory and device control functions of `smb_fio.c`, the reconnect logic
and the keep-alive thread. Each holds the IO lock for its exchanges, so a run is a
sequence of operations. A function on a path checks the session and prepares the path
before it takes the lock; what it does under the lock is a function of its own.
-/

namespace BdmAssault.Smb.Driver

open Lib

/-! ## Globals -/

def Session.disconnected (s : Session) : Session := { s with uid := none, tid := none }

/-- `(UID == -1) || (TID == -1)` -/
def Session.noTree (s : Session) : Bool := s.uid.isNone || s.tid.isNone

def modifySession (g : Session → Session) : Call Unit :=
  modifyState fun s => { s with session := g s.session }

def getSession : Call Session := do
  let s ← getState
  return s.session

/-- A slot after `memset`. -/
def noHandle : Handle :=
  { used := false
    fid := none
    filesize := 0
    position := 0
    mode := ⟨false, false, false, false, false, false, false⟩
    name := [] }

def State.handle (s : State) (fh : Nat) : Handle := s.handles.getD fh noHandle

def State.modifyHandle (s : State) (fh : Nat) (g : Handle → Handle) : State :=
  { s with handles := s.handles.modify fh g }

def modifyHandle (fh : Nat) (g : Handle → Handle) : Call Unit :=
  modifyState fun s => s.modifyHandle fh g

/-- `smbman_getfilefreeslot` -/
def State.freeSlot (s : State) : Option Nat := s.handles.findIdx? fun h => !h.used

/-- `smb_ReadAheadInvalidate`; `none` is the call with `NULL`. -/
def ReadAhead.invalidate (r : ReadAhead) (fh : Option Nat) : ReadAhead :=
  let r := if fh.isNone ∨ r.fh = fh then { r with fh := none, offset := 0, data := [] } else r
  if fh.isNone ∨ r.sequenceFh = fh then { r with sequenceFh := none, sequenceNext := 0 } else r

def modifyReadAhead (g : ReadAhead → ReadAhead) : Call Unit :=
  modifyState fun s => { s with readAhead := g s.readAhead }

def readAheadInvalidate (fh : Option Nat) : Call Unit := modifyReadAhead fun r => r.invalidate fh

/-! ## Reconnecting -/

/-- `smb_SessionSetupWithAnonymousFallback`; the flag is `fallback_used`. -/
def smbSessionSetupWithAnonymousFallback (caller : Caller) (anonymous : Bool) :
    Call (Nat × Bool) := do
  match ← (smbSessionSetupAndX caller anonymous).result with
  | .ok uid => return (uid, false)
  | .error e =>
      if anonymous then
        let uid ← smbSessionSetupAndX caller false
        return (uid, true)
      else throw e

/-- `if (TID != -1) { smb_TreeDisconnect(UID, TID); TID = -1; }` -/
def leaveTree : Call Unit := do
  let s ← getSession
  if s.tid.isSome then
    let _ ← (smbTreeDisconnect .operation s.uid s.tid).result
    modifySession fun s => { s with tid := none }

/-- The current directory becomes the root directory of the configured path. -/
def smbOpenShare (caller : Caller) (configured : Name) : Call Unit := do
  match splitSharePath configured with
  | none => throw .einval
  | some (share, root) =>
      leaveTree
      let s ← getSession
      let tid ← smbTreeConnectAndX caller s.uid share
      modifySession fun s => { s with tid := some tid }
      modifyState fun s => { s with curdir := root }
      modifySession fun s => { s with openshare := configured, openshareValid := true }

/-- `smb_ReopenHandles` on the slots that are left. -/
def smbReopenHandles : List Nat → Call Unit
  | [] => return ()
  | fh :: rest => do
      let s ← getState
      let h := s.handle fh
      if h.used = false then smbReopenHandles rest
      else if h.mode.directory then
        modifyHandle fh fun h => { h with fid := none }
        smbReopenHandles rest
      else
        let (fid, filesize) ← smbOpenAndX .restore s.session.uid s.session.tid h.name
          { h.mode with truncate := false }
        modifyHandle fh fun h => { h with fid := some fid, filesize := filesize }
        smbReopenHandles rest

/-- `smb_RestoreConnection` from the new connection to its label `failed`. -/
def restoreSession : Call Unit := do
  smbConnect
  smbNegotiateProtocol .restore
  let s ← getSession
  let (uid, fallbackUsed) ← smbSessionSetupWithAnonymousFallback .restore s.anonymous
  modifySession fun s => { s with uid := some uid, anonymous := s.anonymous && !fallbackUsed }
  let s ← getState
  if s.session.openshareValid then
    smbOpenShare .restore s.session.openshare
    smbReopenHandles (List.range s.handles.length)

/-- `smb_AbortConnection(); UID = -1; TID = -1;` -/
def abortConnection : Call Unit := do
  disconnect
  modifySession Session.disconnected

def smbRestoreConnection : Call Unit := do
  let s ← getSession
  if s.logonValid then
    abortConnection
    match ← restoreSession.result with
    | .ok () => return ()
    | .error e =>
        abortConnection
        throw e
  else throw .enotconn

def halt {α : Type} : Call α := do
  let e ← Call.command .halt
  nomatch e

/-- A loop of the driver. It may go on for ever, so `rounds` bounds how far it is
followed. -/
def loop {α β : Type} (rounds : Nat) (body : β → Call (β ⊕ α)) (b : β) : Call α :=
  ExceptT.mk (Dialogue.iterate halt.run (fun b => do
    match ← (body b).run with
    | .ok (.inl b') => return .inl b'
    | .ok (.inr a) => return .inr (.ok a)
    | .error e => return .inr (.error e)) rounds b)

/-- The rule of a loop, whatever answers the commands. -/
theorem meets_loop {α β S : Type} {h : Handler Cmd Cmd.Res S} {G I : S → Prop}
    (hhalt : ∀ s, h .halt s = none) {rounds : Nat} {body : β → Call (β ⊕ α)} {P : β → S → Prop}
    {Q : Except Errno α → S → Prop}
    (hbody : ∀ b s, P b s → (body b).Meets h G I s fun r s' =>
      match r with
      | .ok (.inl b') => P b' s'
      | .ok (.inr a) => Q (.ok a) s'
      | .error e => Q (.error e) s') {s : S} {b : β} (hp : P b s) :
    (loop rounds body b).Meets h G I s Q := by
  have hstop : ∀ s, (halt : Call α).Meets h G I s Q := by
    intro s
    refine Fallible.Meets.bind (T := fun _ _ => False) ?_ (fun a => nomatch a) fun e s' h => h.elim
    refine Fallible.meets_command fun r s' hstep _ => ?_
    rw [hhalt] at hstep
    cases hstep
  refine Dialogue.Safe.iterate (P := P) hstop (fun b s' hp => ?_) rounds hp
  refine Dialogue.Safe.bind ((hbody b s' hp).mono fun r s'' hr => ?_)
  match r with
  | .ok (.inl b') => exact hr
  | .ok (.inr a) => exact hr
  | .error e => exact hr

def smbReconnectUntilReady (rounds : Nat) : Call Unit := do
  modifySession fun s => { s with keepaliveLocked := true }
  readAheadInvalidate none
  loop rounds (fun _ : Unit => do
    match ← smbRestoreConnection.result with
    | .ok () => return .inr ()
    | .error e =>
        let s ← getSession
        if s.logonValid then return .inl () else throw e) ()
  modifySession fun s => { s with keepaliveLocked := false }

/-- `smb_ReadFileWithReconnect` and `smb_WriteFileWithReconnect`: the file identifier is
read again after a reconnect. -/
def withReconnect {α : Type} (rounds fh : Nat)
    (transfer : Option Nat → Option Nat → Option Nat → Call α) : Call α :=
  loop rounds (fun _ : Unit => do
    let s ← getState
    match ← (transfer s.session.uid s.session.tid (s.handle fh).fid).result with
    | .ok n => return .inr n
    | .error e =>
        if e.isTransportError then
          match ← (smbReconnectUntilReady rounds).result with
          | .ok () => return .inl ()
          | .error _ => throw e
        else throw e) ()

def smbReadFileWithReconnect (rounds fh : Nat) (position : Int) (size : Nat) : Call (List UInt8) :=
  withReconnect rounds fh fun uid tid fid => smbReadFile uid tid fid position size

def smbWriteFileWithReconnect (rounds fh : Nat) (position : Int) (data : List UInt8) : Call Nat :=
  withReconnect rounds fh fun uid tid fid => smbWriteFile uid tid fid position data

/-! ## Reading and writing -/

/-- The variables of the loop of `smb_ReadCached`; `completed` is what it has read. -/
structure Progress where
  position : Int
  completed : List UInt8
  remaining : Nat

def Progress.advance (p : Progress) (bytes : List UInt8) : Progress :=
  ⟨p.position + bytes.length, p.completed ++ bytes, p.remaining - bytes.length⟩

/-- What `smb_ReadCached` does with a read that failed: what was read before counts. -/
def Progress.failed (p : Progress) (e : Errno) : Call (Progress ⊕ List UInt8) :=
  if p.completed ≠ [] then return .inr p.completed else throw e

def ReadAhead.covers (r : ReadAhead) (fh : Nat) (position : Int) : Bool :=
  r.fh = some fh ∧ r.offset ≤ position ∧ position < r.offset + r.data.length

/-- The buffer's bytes from `position` on. -/
def ReadAhead.bytesFrom (r : ReadAhead) (position : Int) : List UInt8 :=
  r.data.drop (position - r.offset).toNat

def smbReadCached (rounds fh size : Nat) (position : Int) (allowReadAhead : Bool) :
    Call (List UInt8) :=
  loop rounds (fun p : Progress => do
    let s ← getState
    if p.remaining = 0 then return .inr p.completed
    else if s.readAhead.covers fh p.position then
      return .inl (p.advance ((s.readAhead.bytesFrom p.position).take p.remaining))
    else if allowReadAhead = false ∨ 8192 ≤ p.remaining then
      match ← (smbReadFileWithReconnect rounds fh p.position p.remaining).result with
      | .error e => p.failed e
      | .ok bytes => if bytes = [] then return .inr p.completed else return .inl (p.advance bytes)
    else
      let available := (min ((s.handle fh).filesize - p.position) 8192).toNat
      if available = 0 then return .inr p.completed
      else
        readAheadInvalidate none
        match ← (smbReadFileWithReconnect rounds fh p.position available).result with
        | .error e => p.failed e
        | .ok bytes =>
            if bytes = [] then return .inr p.completed
            else
              modifyReadAhead fun r =>
                { r with fh := some fh, offset := p.position, data := bytes }
              return .inl p) ⟨position, [], size⟩

def smbRead (rounds fh size : Nat) : Call (List UInt8) := do
  let s ← getState
  let h := s.handle fh
  if s.session.noTree ∨ h.fid = none then throw .ebadf
  else
    let size := (min (size : Int) (h.filesize - h.position)).toNat
    let allow := s.readAhead.sequenceFh = some fh ∧ s.readAhead.sequenceNext = h.position
    match ← (smbReadCached rounds fh size h.position allow).result with
    | .error e =>
        readAheadInvalidate (some fh)
        throw e
    | .ok bytes =>
        if bytes = [] then return []
        else
          modifyHandle fh fun h => { h with position := h.position + bytes.length }
          modifyState fun s => { s with readAhead :=
            { s.readAhead with sequenceFh := some fh, sequenceNext := (s.handle fh).position } }
          return bytes

/-- The new position of a handle, and the size if the file has grown. -/
def Handle.advance (h : Handle) (n : Nat) : Handle :=
  let position := h.position + n
  { h with position := position, filesize := (max (h.filesize : Int) position).toNat }

def smbWrite (rounds fh : Nat) (data : List UInt8) : Call Nat := do
  let s ← getState
  let h := s.handle fh
  if h.mode.writable = false then throw .eacces
  else if s.session.noTree ∨ h.fid = none then throw .ebadf
  else
    readAheadInvalidate none
    let n ← smbWriteFileWithReconnect rounds fh h.position data
    if n = 0 then return 0
    else
      modifyHandle fh fun h => h.advance n
      return n

/-- `SEEK_CUR`, `SEEK_SET`, `SEEK_END` -/
inductive Whence where
  | cur | set | «end»
deriving DecidableEq, Repr

def Handle.seek (h : Handle) (pos : Int) : Whence → Int
  | .cur => h.position + pos
  | .set => pos
  | .end => h.filesize

/-- `smb_lseek64`: a position in front of the file passes the checks. -/
def smbLseek64 (fh : Nat) (pos : Int) (whence : Whence) : Call Int := do
  let s ← getState
  let h := s.handle fh
  let r := h.seek pos whence
  if h.filesize < r then throw .einval
  else
    modifyHandle fh fun h => { h with position := r }
    return r

/-! ## Files and directories -/

/-- The check of the session and `prepare_path`, before the lock is taken. -/
def withPath {α : Type} (filename : Name) (locked : Name → Call α) : Call α := do
  let s ← getState
  if s.session.noTree then throw .enotconn else locked (preparePath s.curdir filename)

/-- `smb_open` under the lock. The slot becomes the private data of the file. -/
def smbOpenLocked (mode : OpenMode) (path : Name) : Call Nat := do
  let s ← getState
  match s.freeSlot with
  | none => throw .emfile
  | some fh =>
      readAheadInvalidate (some fh)
      let (fid, filesize) ← smbOpenAndX .operation s.session.uid s.session.tid path mode
      modifyHandle fh fun _ =>
        { used := true
          fid := some fid
          filesize := if mode.truncate then 0 else filesize
          position := if mode.append ∧ mode.truncate = false then filesize else 0
          mode := mode
          name := handleName path }
      return fh

def smbOpen (filename : Name) (mode : OpenMode) : Call Nat := withPath filename (smbOpenLocked mode)

def smbCloseFile (fh : Nat) : Call Unit := do
  let s ← getState
  let h := s.handle fh
  if s.session.noTree ∨ h.fid = none then throw .ebadf
  else
    if h.mode.directory = false then smbClose s.session.uid s.session.tid h.fid
    readAheadInvalidate (some fh)
    modifyHandle fh fun _ => noHandle

/-- `smb_closeAll` on the slots that are left. -/
def closeSlots : List Nat → Call Unit
  | [] => return ()
  | fh :: rest => do
      let s ← getState
      let h := s.handle fh
      if h.fid = none then closeSlots rest
      else
        let _ ← (smbClose s.session.uid s.session.tid h.fid).result
        closeSlots rest

def smbCloseAll : Call Unit := do
  readAheadInvalidate none
  let s ← getState
  closeSlots (List.range s.handles.length)

def smbRemoveLocked (path : Name) : Call Unit := do
  let s ← getSession
  smbDelete s.uid s.tid path
  readAheadInvalidate none

def smbRemove (filename : Name) : Call Unit := withPath filename smbRemoveLocked

def smbMkdirLocked (path : Name) : Call Unit := do
  let s ← getSession
  smbManageDirectory s.uid s.tid path true

def smbMkdir (dirname : Name) : Call Unit := withPath dirname smbMkdirLocked

def smbRmdirLocked (path : Name) : Call Unit := do
  let s ← getSession
  let info ← smbQueryPathInformation .operation s.uid s.tid path
  if info.directory then smbManageDirectory s.uid s.tid path false else throw .enotdir

def smbRmdir (dirname : Name) : Call Unit := withPath dirname smbRmdirLocked

/-- A free slot has no identifier, so none is written here. -/
def smbDopenLocked (path : Name) : Call Nat := do
  let s ← getState
  let info ← smbQueryPathInformation .operation s.session.uid s.session.tid path
  if info.directory then
    let s ← getState
    match s.freeSlot with
    | none => throw .emfile
    | some fh =>
        modifyHandle fh fun h => { h with
          used := true, filesize := 0, position := 0, mode := dirOpen, name := searchPattern path }
        return fh
  else throw .enotdir

def smbDopen (dirname : Name) : Call Nat := withPath dirname smbDopenLocked

/-- A search is begun with the pattern of the handle, and continued with its identifier. -/
def smbDread (fh : Nat) : Call Unit := do
  let s ← getState
  if s.session.noTree then throw .enotconn
  else
    match (s.handle fh).fid with
    | none =>
        let sid ← smbFindFirstNext2 s.session.uid s.session.tid none (s.handle fh).name
        modifyHandle fh fun h => { h with fid := some sid }
    | some sid =>
        let _ ← smbFindFirstNext2 s.session.uid s.session.tid (some sid) []

def smbGetstatLocked (path : Name) : Call Unit := do
  let s ← getSession
  let _ ← smbQueryPathInformation .operation s.uid s.tid path

def smbGetstat (filename : Name) : Call Unit := withPath filename smbGetstatLocked

def smbRenameLocked (oldPath newPath : Name) : Call Unit := do
  let s ← getSession
  smbRename s.uid s.tid oldPath newPath
  readAheadInvalidate none

/-- The second path has a buffer of its own. -/
def smbRenameFile (oldname newname : Name) : Call Unit :=
  withPath oldname fun oldPath => do
    let s ← getState
    smbRenameLocked oldPath (preparePath s.curdir newname)

def smbChdirLocked (path : Name) : Call Unit :=
  if endsInDots path then modifyState fun s => { s with curdir := parentDir s.curdir }
  else if endsInDot path then modifyState fun s => { s with curdir := [] }
  else do
    let s ← getSession
    let info ← smbQueryPathInformation .operation s.uid s.tid path
    if info.directory then modifyState fun s => { s with curdir := path.take 1023 }
    else throw .enotdir

def smbChdir (dirname : Name) : Call Unit := withPath dirname smbChdirLocked

/-! ## Device control -/

/-- The part of `smb_LogOff` that leaves the tree. -/
def closeTree : Call Unit := do
  let s ← getSession
  if s.tid.isSome then
    smbCloseAll
    leaveTree

def smbLogOff (caller : Caller) : Call Unit := do
  let s ← getSession
  if s.uid = none then throw .enotconn
  else
    closeTree
    smbLogOffAndX caller s.uid
    modifySession fun s => { s with
      uid := none, logonValid := false, openshareValid := false, keepaliveLocked := true }
    disconnect

/-- A failed step of `smb_LogOn` with the error it is reported as. -/
def orFail {α : Type} (m : Call α) (e : Errno) : Call α := do
  match ← m.result with
  | .ok a => return a
  | .error _ => throw e

def logOffFirst : Call Unit := do
  let s ← getSession
  if s.uid.isSome then
    let _ ← (smbLogOff .relogon).result

def smbLogOn (anonymous : Bool) : Call Unit := do
  logOffFirst
  orFail smbConnect .logonErrConn
  orFail (smbNegotiateProtocol .operation) .logonErrProt
  let (uid, fallbackUsed) ←
    orFail (smbSessionSetupWithAnonymousFallback .operation anonymous) .logonErrLogon
  modifySession fun s => { s with
    uid := some uid, logonValid := true, anonymous := anonymous && !fallbackUsed
    keepaliveLocked := false }

/-- `IPC$` -/
def ipcShare : Name := [0x49, 0x50, 0x43, 0x24]

/-- The loop of `smb_GetShareList` over the entries that are left; `entry` is what
`ShareList` holds. -/
def listShares (uid tid : Option Nat) (maxent : Nat) :
    List Nat → Option Share → Nat → Call Nat
  | [], _, shareindex => return shareindex
  | i :: rest, entry, shareindex => do
      let found ← smbNetShareEnum uid tid i 1
      let entry := if found.isEmpty then entry else found.head?
      let hidden := entry.any fun share => share.name = ipcShare
      let delivered := if hidden = false ∧ shareindex < maxent then 1 else 0
      listShares uid tid maxent rest entry (shareindex + delivered)

def smbGetShareList (maxent : Nat) : Call Nat := do
  leaveTree
  let s ← getSession
  let tid ← smbTreeConnectAndX .operation s.uid ipcShare
  modifySession fun s => { s with tid := some tid }
  if s.uid = none then throw .enotconn
  else
    let shares ← smbNetShareEnum s.uid (some tid) 0 0
    let shareindex ← listShares s.uid (some tid) maxent (List.range shares.length) none 0
    smbTreeDisconnect .operation s.uid (some tid)
    modifySession fun s => { s with tid := none }
    return shareindex

def smbCloseShare : Call Unit := do
  let s ← getSession
  if s.tid = none then throw .enotconn
  else
    smbCloseAll
    smbTreeDisconnect .operation s.uid s.tid
    modifySession fun s => { s with tid := none, openshareValid := false }

def smbQueryDiskInfo : Call Unit := do
  let s ← getSession
  if s.noTree then throw .enotconn else smbQueryInformationDisk s.uid s.tid

/-! ## Runs -/

/-- One turn of the keep-alive thread whose idle time is over. -/
def keepaliveTurn (rounds : Nat) : Call Unit := do
  let s ← getSession
  if s.keepaliveLocked = false then
    match ← (smbEcho .keepalive).result with
    | .ok () => return ()
    | .error e =>
        if e.isTransportError then
          let _ ← (smbReconnectUntilReady rounds).result

/-- The I/O manager hands on only files that are open. -/
def withFile {α : Type} (fh : Nat) (body : Call α) : Call α := do
  let s ← getState
  if (s.handle fh).used then body else throw .ebadf

inductive Op where
  | openFile (filename : Name) (mode : OpenMode)
  | close (fh : Nat)
  | read (fh size : Nat)
  | write (fh : Nat) (data : List UInt8)
  | lseek (fh : Nat) (pos : Int) (whence : Whence)
  | remove (filename : Name)
  | mkdir (dirname : Name)
  | rmdir (dirname : Name)
  | dopen (dirname : Name)
  | dread (fh : Nat)
  | getstat (filename : Name)
  | rename (oldname newname : Name)
  | chdir (dirname : Name)
  | logOn (anonymous : Bool)
  | logOff
  | getShareList (maxent : Nat)
  | openShare (configured : Name)
  | closeShare
  | echo
  | queryDiskInfo
  | keepalive
deriving DecidableEq, Repr

/-- An operation; a file or directory that was opened is its slot. -/
def Op.call (rounds : Nat) : Op → Call (Option Nat)
  | .openFile filename mode => some <$> smbOpen filename mode
  | .dopen dirname => some <$> smbDopen dirname
  | .close fh => do withFile fh (smbCloseFile fh); return none
  | .read fh size => do let _ ← withFile fh (smbRead rounds fh size); return none
  | .write fh data => do let _ ← withFile fh (smbWrite rounds fh data); return none
  | .lseek fh pos whence => do let _ ← withFile fh (smbLseek64 fh pos whence); return none
  | .dread fh => do withFile fh (smbDread fh); return none
  | .remove filename => do smbRemove filename; return none
  | .mkdir dirname => do smbMkdir dirname; return none
  | .rmdir dirname => do smbRmdir dirname; return none
  | .getstat filename => do smbGetstat filename; return none
  | .rename oldname newname => do smbRenameFile oldname newname; return none
  | .chdir dirname => do smbChdir dirname; return none
  | .logOn anonymous => do smbLogOn anonymous; return none
  | .logOff => do smbLogOff .operation; return none
  | .getShareList maxent => do let _ ← smbGetShareList maxent; return none
  | .openShare configured => do smbOpenShare .operation configured; return none
  | .closeShare => do smbCloseShare; return none
  | .echo => do smbEcho .operation; return none
  | .queryDiskInfo => do smbQueryDiskInfo; return none
  | .keepalive => do keepaliveTurn rounds; return none

/-- The operations one after the other, whatever each returns. -/
def runOps (rounds : Nat) : List Op → Dialogue Cmd Cmd.Res Unit
  | [] => return ()
  | op :: ops => do
      let _ ← (op.call rounds).run
      runOps rounds ops

/-- The globals after `smb_initdev`, before any log-on. -/
def initialState : State where
  session :=
    { uid := none
      tid := none
      logonValid := false
      openshareValid := false
      openshare := []
      anonymous := false
      keepaliveLocked := true }
  userLevel := false
  ntSmbs := false
  curdir := []
  handles := List.replicate 32 noHandle
  readAhead := ⟨none, 0, [], none, 0⟩

def initial (replies : List (Option Reply)) (connects : List Bool) : World where
  state := initialState
  connected := false
  nextId := 0
  pending := []
  log := []
  replies := replies
  connects := connects

/-! ## A server that grants everything -/

/-- A reply every request takes for a success. -/
def granted : Reply where
  size := 100
  magic := smbMagicNumber
  status := statusSuccess
  wordcount := 17
  userLevel := true
  ntSmbs := false
  uid := 1
  tid := 1
  fid := 1
  directory := false
  endOfFile := 8
  searchId := 1
  searchCount := 1
  endOfSearch := false
  apiStatus := 0
  shares := []
  echoed := true
  read := .data [1, 2, 3, 4, 5, 6, 7, 8]
  count := 8

def readOnly : OpenMode := ⟨true, false, false, false, false, false, false⟩

/-- `G` -/
def shareName : Name := [0x47]

/-- `f` -/
def fileName : Name := [0x66]

end BdmAssault.Smb.Driver
