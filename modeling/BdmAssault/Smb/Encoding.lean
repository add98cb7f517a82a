import BdmAssault.Smb.WellFormed

/-! # The encoding of requests

Which requests of `smb.c` are well formed, for all arguments that their callers can pass.
-/

namespace BdmAssault.Smb

open Codec

/-! ## The requests one by one -/

section Each

variable {specs : ServerSpecs} {uid tid : Nat}

theorem built_nil {l : Laid} (hdata : l.data = []) (hpayload : l.payload = [])
    (h : l.Counted 0) (hwords : l.wordCount.toNat.ble 24 = true) : l.WellFormed [] := by
  have hle := Nat.le_of_ble_eq_true hwords
  refine h.wellFormed_of_built hpayload ?_ nofun
  rw [hdata, List.length_nil]
  have hsize : smbBufSize = 4224 := rfl
  omega

theorem queryPathInformation_wellFormed (path : Memory) (level : Nat)
    (hpath : (path.field specs.unicode).out.length ≤ 2048) :
    (queryPathInformationRequest specs uid tid path level).WellFormed
      (transactionFields (le16 level ++ le32 0 ++ (path.field specs.unicode).out)) := by
  have hcounted := @queryPathInformation_counted specs uid tid path level (by omega)
  have hparams : (le16 level ++ le32 0 ++ (path.field specs.unicode).out).length =
      (2 + 4 + (path.field specs.unicode).len) % 65536 := by
    simp
    omega
  have hsession : (queryPathInformationRequest specs uid tid path level).session =
      (68 + (2 + 4 + (path.field specs.unicode).len) % 65536) % 65536 := rfl
  have hdescribes := @Laid.describes (queryPathInformationRequest specs uid tid path level) _ _ _ _
    rfl (by omega) (by decide) (by omega)
  rw [← hparams] at hdescribes
  refine hcounted.wellFormed_of_built rfl ?_
    (hcounted.transaction (p := [0, 0, 0]) (by omega) hdescribes ?_ ?_)
  · simp [queryPathInformationRequest, smbBufSize]
    omega
  · exact List.append_nil _
  · exact Nat.le_of_eq (by rw [hparams, hsession])

theorem findFirstNext2_wellFormed (path : Memory) (sid : Option Nat)
    (hpath : (path.field specs.unicode).out.length ≤ 2048) :
    (findFirstNext2Request specs uid tid path sid).WellFormed
      (transactionFields (findParameters (path.field specs.unicode).out sid)) := by
  have hcounted := @findFirstNext2_counted specs uid tid path sid (by omega)
  have hparams : (findParameters (path.field specs.unicode).out sid).length =
      (12 + (path.field specs.unicode).len) % 65536 := by
    rw [findParameters_length, Memory.field_len]
    omega
  have hsession : (findFirstNext2Request specs uid tid path sid).session =
      68 + (12 + (path.field specs.unicode).len) % 65536 := rfl
  have hdescribes := @Laid.describes (findFirstNext2Request specs uid tid path sid) _ _ _ _
    rfl (by omega) (by decide) (by decide)
  rw [← hparams] at hdescribes
  refine hcounted.wellFormed_of_built rfl ?_
    (hcounted.transaction (p := [0, 0, 0]) (by omega) hdescribes ?_ (Nat.zero_le _))
  · simp [findFirstNext2Request, smbBufSize, findParameters_length]
    omega
  · exact List.append_nil _

theorem netShareEnum_wellFormed :
    (netShareEnumRequest uid tid).WellFormed (transactionFields netShareParameters) := by
  have hword : ∀ i < 27, word16 (bytesAt (netShareEnumRequest uid tid).message) (37 + i) =
      word16 (bytesAt (netShareEnumRequest 0 0).words) i := fun i hi =>
    Laid.message_word _ (show i + 1 < 28 by omega)
  have hdescribes : Describes (netShareEnumRequest uid tid).message netShareParameters.length
      (35 + 2 * 14 + netShareName.length) 95 := by
    constructor
    · exact (hword 0 (by decide)).trans (by decide)
    · exact (hword 18 (by decide)).trans (by decide)
    · exact (hword 20 (by decide)).trans (by decide)
    · exact (hword 22 (by decide)).trans (by decide)
    · exact (hword 24 (by decide)).trans (by decide)
  refine (@netShareEnum_counted uid tid).wellFormed_of_built rfl ?_
    (netShareEnum_counted.transaction ?_ hdescribes ?_ ?_)
  · show 35 + 2 * 14 + 32 + 0 ≤ 4224
    decide
  · show 95 < 16777216
    decide
  · exact List.append_nil _
  · exact Nat.le_refl 95

theorem ntCreateAndX_wellFormed (filename : Memory) (mode : OpenFlags)
    (hname : (filename.field specs.unicode).out.length ≤ 2048) :
    (ntCreateAndXRequest specs uid tid filename mode).WellFormed
      [⟨fun _ => if specs.unicode then 84 else 83, fun b => word16 b 42,
        (filename.field specs.unicode).out⟩] := by
  have hcounted := @ntCreateAndX_counted specs uid tid filename mode (by omega)
  have hlength : word16 (bytesAt (ntCreateAndXRequest specs uid tid filename mode).message) 42 =
      (filename.field specs.unicode).out.length := by
    refine (Laid.message_word _ (i := 5) (by simp [ntCreateAndXRequest])).trans ?_
    simp [ntCreateAndXRequest, word16, bytesAt, le16]
    omega
  have hbuilt : 35 + 2 * 24 + (paddedName specs (filename.field specs.unicode).out).length + 1 ≤
      smbBufSize := by
    rw [paddedName_length]
    show _ ≤ 4224
    split <;> omega
  have hsession := hcounted.session
  refine hcounted.wellFormed_of_built rfl hbuilt fun f hf => ?_
  obtain rfl := List.mem_singleton.mp hf
  refine hcounted.located ?_ (p := if specs.unicode then [0] else []) (q := []) ?_ ?_ hlength
  · have hsize : smbBufSize = 4224 := rfl
    rw [hsession]
    show 35 + 2 * 24 + (paddedName specs (filename.field specs.unicode).out).length + 0 + 1 < _
    omega
  · exact List.append_assoc _ _ _
  · show (if specs.unicode then 84 else 83) = 35 + 2 * 24 + _
    split <;> rfl

theorem openAndX_wellFormed (filename : Memory) (mode : OpenFlags)
    (hname : (filename.field specs.unicode).out.length ≤ 2048) :
    (openAndXRequest specs uid tid filename mode).WellFormed [] := by
  refine (openAndX_counted filename mode).wellFormed_of_built rfl ?_ nofun
  simp [openAndXRequest, smbBufSize, paddedName_length]
  split <;> omega

theorem delete_wellFormed (path : Memory) (hpath : (path.field specs.unicode).out.length ≤ 2048) :
    (deleteRequest specs uid tid path).WellFormed [] := by
  refine (delete_counted path).wellFormed_of_built rfl ?_ nofun
  simp [deleteRequest, smbBufSize]
  omega

theorem manageDirectory_wellFormed (path : Memory) (cmd : Nat)
    (hpath : (path.field specs.unicode).out.length ≤ 2048) :
    (manageDirectoryRequest specs uid tid path cmd).WellFormed [] := by
  refine (manageDirectory_counted path cmd).wellFormed_of_built rfl ?_ nofun
  simp [manageDirectoryRequest, smbBufSize]
  omega

theorem rename_wellFormed (oldPath newPath : Memory)
    (hold : (oldPath.field specs.unicode).out.length ≤ 2048)
    (hnew : (newPath.field specs.unicode).out.length ≤ 2048) :
    (renameRequest specs uid tid oldPath newPath).WellFormed [] := by
  refine (rename_counted oldPath newPath).wellFormed_of_built rfl ?_ nofun
  rw [rename_data, List.length_append, paddedName_length]
  simp [renameRequest, smbBufSize]
  split <;> omega

theorem writeAndX_wellFormed (fid fileoffset : Nat) {writebuf : List UInt8}
    (h : writebuf.length < 65535) :
    (writeAndXRequest uid tid fid fileoffset writebuf).WellFormed
      [⟨fun b => word16 b 59, fun b => word16 b 57 + 65536 * word16 b 55, writebuf⟩] := by
  have hcounted := @writeAndX_counted uid tid fid fileoffset writebuf (by omega)
  have hword : ∀ i, i + 1 < 28 →
      word16 (bytesAt (writeAndXRequest uid tid fid fileoffset writebuf).message) (37 + i) =
        word16 (bytesAt (writeAndXRequest uid tid fid fileoffset writebuf).words) i := fun i hi =>
    Laid.message_word _ (by rwa [Laid.words_length])
  have hoffset : word16 (bytesAt (writeAndXRequest uid tid fid fileoffset writebuf).message) 59 =
      64 := by
    refine (hword 22 (by decide)).trans ?_
    simp [writeAndXRequest, word16, bytesAt, le16, le32]
  have hlow : word16 (bytesAt (writeAndXRequest uid tid fid fileoffset writebuf).message) 57 =
      writebuf.length := by
    refine (hword 20 (by decide)).trans ?_
    simp [writeAndXRequest, word16, bytesAt, le16, le32]
    omega
  have hhigh : word16 (bytesAt (writeAndXRequest uid tid fid fileoffset writebuf).message) 55 =
      0 := by
    refine (hword 18 (by decide)).trans ?_
    simp [writeAndXRequest, word16, bytesAt, le16, le32]
    omega
  refine hcounted.wellFormed ?_ ?_ fun f hf => ?_
  · show 1 + writebuf.length < 65536
    omega
  · show 35 + 2 * 14 + 1 + 0 ≤ 4224
    decide
  · obtain rfl := List.mem_singleton.mp hf
    refine hcounted.located ?_ (p := [0]) (q := []) ?_ hoffset ?_
    · show 64 + writebuf.length < 16777216
      omega
    · exact (congrArg _ (List.append_nil _)).symm
    · show word16 _ 57 + 65536 * word16 _ 55 = _
      rw [hlow, hhigh]
      rfl

theorem echo_wellFormed {e : List UInt8} (h : e.length ≤ 4187) :
    (echoRequest e).WellFormed [] := by
  refine (echo_counted e).wellFormed_of_built rfl ?_ nofun
  simp [echoRequest, smbBufSize]
  omega

end Each

/-! ## The requests for a session -/

section Session

variable {specs : SessionSpecs}

theorem complete_of_announced {s : List UInt8} (h : ∀ b ∈ s, announced b = 1) : Complete s := by
  refine ⟨s.map ([·]), ?_, ?_⟩
  · intro p hp
    obtain ⟨b, hb, rfl⟩ := List.mem_map.mp hp
    exact ⟨b, [], rfl, (h b hb).symm⟩
  · induction s with
    | nil => rfl
    | cons b s ih =>
        rw [List.map_cons, List.flatten_cons, ← ih fun c hc => h c (List.mem_cons_of_mem _ hc)]
        rfl

theorem announced_of_all {s : List UInt8} (h : s.all (announced · = 1) = true) :
    ∀ b ∈ s, announced b = 1 :=
  fun b hb => of_decide_eq_true (List.all_eq_true.mp h b hb)

theorem literal_le {chars : List Char} {bare : 0 ∉ chars.map Char.toUInt8} (unicode : Bool)
    (h : ∀ b ∈ chars.map Char.toUInt8, announced b = 1) :
    ((literal chars bare).field unicode).out.length ≤ 2 * chars.length + 2 := by
  have hle := @Memory.field_le (literal chars bare) unicode fun _ => complete_of_announced h
  rwa [show (literal chars bare).text.bytes.length = chars.length from List.length_map _] at hle

section Fields

variable (f : ByteField) (needed unicode : Bool) (m : Memory)

theorem putString_offset :
    (f.putString unicode m).offset = f.offset + (m.field unicode).out.length :=
  congrArg (f.offset + ·) (m.field_len unicode)

theorem pad_offset_le : (f.pad needed).offset ≤ f.offset + 1 := by
  unfold ByteField.pad
  split
  · exact Nat.le_refl _
  · exact Nat.le_succ _

/-- What is in the field stays in front. -/
theorem prefix_putString : f.bytes <+: (f.putString unicode m).bytes := List.prefix_append _ _

theorem prefix_pad : f.bytes <+: (f.pad needed).bytes := by
  unfold ByteField.pad
  split
  · exact List.prefix_append _ _
  · exact List.prefix_rfl

theorem prefix_align : f.bytes <+: (f.align unicode).bytes := prefix_pad f _

theorem align_offset_ge : f.offset ≤ (f.align unicode).offset := by
  unfold ByteField.align ByteField.pad
  split
  · exact Nat.le_add_right _ _
  · exact Nat.le_refl _

theorem align_offset_le : (f.align unicode).offset ≤ f.offset + 1 := pad_offset_le f _

end Fields

section Passwords

variable (specs : ServerSpecs) (added : AddedPassword)

theorem passwordField_offset_le : (passwordField specs added).offset ≤ added.passwordlen + 1 := by
  have hpad := pad_offset_le (ByteField.start added.buffer)
    (specs.unicode && added.passwordlen % 2 == 0)
  exact Nat.le_trans hpad (Nat.le_of_eq (congrArg (· + 1) added.exact))

theorem prefix_passwordField : added.buffer <+: (passwordField specs added).bytes :=
  prefix_pad (ByteField.start added.buffer) _

theorem prefix_sessionField (user domain : Memory) :
    added.buffer <+: (sessionField specs user domain added).bytes := by
  refine (prefix_passwordField specs added).trans ?_
  refine (prefix_putString _ specs.unicode user).trans ?_
  refine (prefix_putString _ specs.unicode domain).trans ?_
  refine (prefix_align _ specs.unicode).trans ?_
  refine (prefix_putString _ specs.unicode nativeOS).trans ?_
  refine (prefix_align _ specs.unicode).trans ?_
  exact prefix_putString _ specs.unicode nativeLanMan

theorem prefix_treeField (share : Memory) :
    added.buffer <+: (treeField specs share added).bytes := by
  refine (prefix_passwordField specs added).trans ?_
  exact (prefix_putString _ specs.unicode share).trans (List.prefix_append _ _)

theorem sessionField_offset_le (user domain : Memory) :
    (sessionField specs user domain added).offset ≤ added.passwordlen +
      (user.field specs.unicode).out.length + (domain.field specs.unicode).out.length + 45 := by
  have hos : (nativeOS.field specs.unicode).out.length ≤ 28 := literal_le _ (announced_of_all (by decide))
  have hlan : (nativeLanMan.field specs.unicode).out.length ≤ 14 := literal_le _ (announced_of_all (by decide))
  have hpassword := passwordField_offset_le specs added
  have hsystem := align_offset_le (((passwordField specs added).putString specs.unicode user).putString
    specs.unicode domain) specs.unicode
  have hmanager := align_offset_le (((((passwordField specs added).putString specs.unicode
    user).putString specs.unicode domain).align specs.unicode).putString specs.unicode nativeOS)
    specs.unicode
  rw [putString_offset, putString_offset] at hsystem
  rw [putString_offset] at hmanager
  unfold sessionField
  rw [putString_offset]
  omega

theorem sessionField_offset_ge (user domain : Memory) :
    (user.field specs.unicode).out.length + (domain.field specs.unicode).out.length ≤
      (sessionField specs user domain added).offset := by
  have hsystem := align_offset_ge (((passwordField specs added).putString specs.unicode
    user).putString specs.unicode domain) specs.unicode
  have hmanager := align_offset_ge (((((passwordField specs added).putString specs.unicode
    user).putString specs.unicode domain).align specs.unicode).putString specs.unicode nativeOS)
    specs.unicode
  rw [putString_offset, putString_offset] at hsystem
  rw [putString_offset] at hmanager
  unfold sessionField
  rw [putString_offset]
  omega

theorem treeField_offset_ge (share : Memory) : (share.field specs.unicode).out.length ≤
    (treeField specs share added).offset := by
  show _ ≤ ((passwordField specs added).putString specs.unicode share).offset + 6
  rw [putString_offset]
  omega

theorem treeField_offset_le (share : Memory) : (treeField specs share added).offset ≤
    added.passwordlen + (share.field specs.unicode).out.length + 7 := by
  have hpassword := passwordField_offset_le specs added
  show ((passwordField specs added).putString specs.unicode share).offset + 6 ≤ _
  rw [putString_offset]
  omega

end Passwords

theorem addPassword_le (specs : SessionSpecs) (password : Option Password) (lm : Bool) :
    (addPassword specs password lm).passwordlen ≤ 24 := by
  unfold addPassword
  split
  · split
    · exact Nat.le_refl _
    · exact Nat.le_trans (plainLength_le _).2 (by decide)
  · split
    · exact Nat.zero_le _
    · decide

theorem sessionPassword_le (password : Option Password) (lm : Bool) :
    (sessionPassword specs password lm).passwordlen ≤ 24 := by
  unfold sessionPassword
  split
  · exact addPassword_le _ _ _
  · exact Nat.zero_le _

theorem treePassword_le (password : Option Password) (lm : Bool) :
    (treePassword specs password lm).passwordlen ≤ 24 := by
  unfold treePassword
  split
  · decide
  · exact addPassword_le _ _ _

section Added

variable (added : AddedPassword)

theorem ansiBytes_length : added.ansiBytes.length = added.ansiLength := by
  unfold AddedPassword.ansiBytes AddedPassword.ansiLength
  split
  · rfl
  · exact added.exact

theorem unicodeBytes_length : added.unicodeBytes.length = added.unicodeLength := by
  unfold AddedPassword.unicodeBytes AddedPassword.unicodeLength
  split
  · exact added.exact
  · rfl

theorem ansiBytes_append : added.ansiBytes ++ added.unicodeBytes = added.buffer := by
  unfold AddedPassword.ansiBytes AddedPassword.unicodeBytes
  split
  · exact List.nil_append _
  · exact List.append_nil _

theorem lengths_le : added.ansiLength ≤ added.passwordlen ∧
    added.unicodeLength ≤ added.passwordlen := by
  unfold AddedPassword.ansiLength AddedPassword.unicodeLength
  split <;> omega

end Added

theorem sessionSetupAndX_wellFormed (user domain : Memory) (password : Option Password) (lm : Bool)
    (capabilities : Nat) (huser : (user.field specs.unicode).out.length ≤ 1024)
    (hdomain : (domain.field specs.unicode).out.length ≤ 1024) :
    (sessionSetupAndXRequest specs user domain password lm capabilities).WellFormed
      ((Request.sessionSetupAndX user domain password lm capabilities).fields specs) := by
  have hcounted := sessionSetupAndX_counted specs user domain password lm capabilities
  have hpassword := @sessionPassword_le specs password lm
  have hoffset := sessionField_offset_le specs.toServerSpecs (sessionPassword specs password lm)
    user domain
  have hsession : (sessionSetupAndXRequest specs user domain password lm capabilities).session =
      61 + (sessionField specs.toServerSpecs user domain
        (sessionPassword specs password lm)).offset := rfl
  have hdata : (sessionSetupAndXRequest specs user domain password lm capabilities).data.length =
      (sessionField specs.toServerSpecs user domain (sessionPassword specs password lm)).offset :=
    ByteField.exact _
  have hle := lengths_le (sessionPassword specs password lm)
  have hansi : word16 (bytesAt (sessionSetupAndXRequest specs user domain password lm
      capabilities).message) 51 = (sessionPassword specs password lm).ansiBytes.length := by
    refine (Laid.message_word _ (i := 14) (by simp [sessionSetupAndXRequest])).trans ?_
    rw [ansiBytes_length]
    simp [sessionSetupAndXRequest, word16, bytesAt, le16, le32]
    omega
  have hunicode : word16 (bytesAt (sessionSetupAndXRequest specs user domain password lm
      capabilities).message) 53 = (sessionPassword specs password lm).unicodeBytes.length := by
    refine (Laid.message_word _ (i := 16) (by simp [sessionSetupAndXRequest])).trans ?_
    rw [unicodeBytes_length]
    simp [sessionSetupAndXRequest, word16, bytesAt, le16, le32]
    omega
  obtain ⟨post, hpost⟩ := prefix_sessionField specs.toServerSpecs
    (sessionPassword specs password lm) user domain
  rw [← ansiBytes_append, List.append_assoc] at hpost
  have hsplit : (sessionSetupAndXRequest specs user domain password lm capabilities).data ++ [] =
      _ := (List.append_nil _).trans hpost.symm
  refine hcounted.wellFormed_of_built rfl ?_ fun f hf => ?_
  · rw [hdata]
    show 35 + 2 * 13 + _ + 0 ≤ 4224
    omega
  · obtain rfl | rfl : f = _ ∨ f = _ := by simpa [Request.fields] using hf
    · exact hcounted.located (by omega) (p := []) hsplit rfl hansi
    · exact hcounted.located (by omega) hsplit (congrArg (61 + ·) hansi) hunicode

theorem treeConnectAndX_wellFormed (uid : Nat) (share : Memory) (password : Option Password)
    (lm : Bool) (hshare : (share.field specs.unicode).out.length ≤ 1024) :
    (treeConnectAndXRequest specs uid share password lm).WellFormed
      ((Request.treeConnectAndX uid share password lm).fields specs) := by
  have hcounted := treeConnectAndX_counted specs uid share password lm
  have hpassword := @treePassword_le specs password lm
  have hoffset := treeField_offset_le specs.toServerSpecs (treePassword specs password lm) share
  have hsession : (treeConnectAndXRequest specs uid share password lm).session =
      43 + (treeField specs.toServerSpecs share (treePassword specs password lm)).offset := rfl
  have hdata : (treeConnectAndXRequest specs uid share password lm).data.length =
      (treeField specs.toServerSpecs share (treePassword specs password lm)).offset :=
    ByteField.exact _
  have hlength : word16 (bytesAt (treeConnectAndXRequest specs uid share password lm).message) 43 =
      (treePassword specs password lm).buffer.length := by
    refine (Laid.message_word _ (i := 6) (by simp [treeConnectAndXRequest])).trans ?_
    rw [AddedPassword.exact]
    simp [treeConnectAndXRequest, word16, bytesAt, le16]
    omega
  obtain ⟨post, hpost⟩ := prefix_treeField specs.toServerSpecs (treePassword specs password lm) share
  refine hcounted.wellFormed_of_built rfl ?_ fun f hf => ?_
  · rw [hdata]
    show 35 + 2 * 4 + _ + 0 ≤ 4224
    omega
  · obtain rfl := List.mem_singleton.mp hf
    refine hcounted.located (by omega) (p := []) (q := post) ?_ rfl hlength
    exact (List.append_nil _).trans hpost.symm

end Session

/-! ## All requests -/

section All

variable {specs : SessionSpecs} {m : Request Memory}

theorem strings_map {σ τ : Type} (f : σ → τ) (r : Request σ) :
    (r.map f).strings = r.strings.map fun p => (f p.1, p.2) := by
  cases r <;> rfl

/-- What is written for a string that is not too long. -/
theorem Request.Passable.field_le (h : (m.map Memory.text).Passable)
    (he : (m.map Memory.text).Encodable specs.toServerSpecs) :
    ∀ s n, (s, n) ∈ m.strings → (s.field specs.unicode).out.length ≤ 2 * n + 2 := by
  intro s n hs
  have hmem : (s.text, n) ∈ (m.map Memory.text).strings := by
    rw [strings_map]
    exact List.mem_map.mpr ⟨(s, n), hs, rfl⟩
  have hlength : s.text.bytes.length ≤ n := h.strings _ hmem
  have hle := @Memory.field_le s specs.unicode fun hu => he.complete hu _ hmem
  omega

theorem wellFormed_of_encodable (h : (m.map Memory.text).Passable)
    (he : (m.map Memory.text).Encodable specs.toServerSpecs) :
    (m.laid specs).WellFormed (m.fields specs) := by
  have hstrings := h.field_le he
  cases m with
  | negotiateProtocol =>
      exact negotiateProtocol_counted.wellFormed_of_built rfl (by decide) nofun
  | sessionSetupAndX user domain password lm capabilities =>
      have huser := hstrings user 255 (by simp [Request.strings])
      have hdomain := hstrings domain 63 (by simp [Request.strings])
      exact sessionSetupAndX_wellFormed user domain password lm capabilities (by omega) (by omega)
  | treeConnectAndX uid share password lm =>
      have hshare := hstrings share 273 List.mem_cons_self
      exact treeConnectAndX_wellFormed uid share password lm (by omega)
  | treeDisconnect uid tid => exact built_nil rfl rfl treeDisconnect_counted rfl
  | logOffAndX uid => exact built_nil rfl rfl logOffAndX_counted rfl
  | netShareEnum uid tid => exact netShareEnum_wellFormed
  | queryInformationDisk uid tid =>
      exact built_nil rfl rfl queryInformationDisk_counted rfl
  | queryPathInformation uid tid path level =>
      exact queryPathInformation_wellFormed path level (hstrings path 1023 List.mem_cons_self)
  | ntCreateAndX uid tid filename mode =>
      exact ntCreateAndX_wellFormed filename mode (hstrings filename 1023 List.mem_cons_self)
  | openAndX uid tid filename mode =>
      exact openAndX_wellFormed filename mode (hstrings filename 1023 List.mem_cons_self)
  | readAndX uid tid fid fileoffset nbytes =>
      exact built_nil rfl rfl (readAndX_counted fid fileoffset nbytes) rfl
  | writeAndX uid tid fid fileoffset writebuf =>
      have hpassed := (h.written _ _ _ _ _ rfl).2
      have hshort := he.written _ _ _ _ _ rfl
      exact writeAndX_wellFormed fid fileoffset (by omega)
  | close uid tid fid => exact built_nil rfl rfl (close_counted fid) rfl
  | delete uid tid path => exact delete_wellFormed path (hstrings path 1023 List.mem_cons_self)
  | manageDirectory uid tid path cmd =>
      exact manageDirectory_wellFormed path cmd (hstrings path 1023 List.mem_cons_self)
  | rename uid tid oldPath newPath =>
      have hold := hstrings oldPath 1023 (by simp [Request.strings])
      have hnew := hstrings newPath 1023 (by simp [Request.strings])
      exact rename_wellFormed oldPath newPath hold hnew
  | findFirst2 uid tid path =>
      exact findFirstNext2_wellFormed path none (hstrings path 1023 List.mem_cons_self)
  | findNext2 uid tid sid =>
      have hempty := @literal_le [] (by decide) specs.unicode nofun
      exact findFirstNext2_wellFormed _ (some sid) (Nat.le_trans hempty (by decide))
  | echo e => exact echo_wellFormed (he.echoed e rfl)

/-! ## The requests that fail -/

/-- A string is no longer than the packet it is in. -/
theorem packet_ge : ∀ s n, (s, n) ∈ m.strings →
    (s.field specs.unicode).out.length ≤ (m.laid specs).packet.length := by
  intro s n hs
  have hlength := (m.laid specs).packet_length
  suffices hdata : (s.field specs.unicode).out.length ≤ (m.laid specs).data.length by omega
  cases m with
  | sessionSetupAndX user domain password lm capabilities =>
      have hdata : ((Request.sessionSetupAndX user domain password lm capabilities).laid
          specs).data.length = _ := ByteField.exact _
      have hoffset := sessionField_offset_ge specs.toServerSpecs
        (sessionPassword specs password lm) user domain
      obtain ⟨rfl, -⟩ | ⟨rfl, -⟩ : s = user ∧ _ ∨ s = domain ∧ _ := by
        simpa [Request.strings] using hs
      · omega
      · omega
  | treeConnectAndX uid share password lm =>
      have hdata : ((Request.treeConnectAndX uid share password lm).laid specs).data.length =
          _ := ByteField.exact _
      have hoffset := treeField_offset_ge specs.toServerSpecs (treePassword specs password lm) share
      obtain ⟨rfl, -⟩ : s = share ∧ _ := by simpa [Request.strings] using hs
      omega
  | queryPathInformation uid tid path level =>
      obtain ⟨rfl, -⟩ : s = path ∧ _ := by simpa [Request.strings] using hs
      simp [Request.laid, queryPathInformationRequest]
      omega
  | ntCreateAndX uid tid filename mode =>
      obtain ⟨rfl, -⟩ : s = filename ∧ _ := by simpa [Request.strings] using hs
      simp [Request.laid, ntCreateAndXRequest, paddedName_length]
  | openAndX uid tid filename mode =>
      obtain ⟨rfl, -⟩ : s = filename ∧ _ := by simpa [Request.strings] using hs
      simp [Request.laid, openAndXRequest, paddedName_length]
  | delete uid tid path =>
      obtain ⟨rfl, -⟩ : s = path ∧ _ := by simpa [Request.strings] using hs
      simp [Request.laid, deleteRequest]
  | manageDirectory uid tid path cmd =>
      obtain ⟨rfl, -⟩ : s = path ∧ _ := by simpa [Request.strings] using hs
      simp [Request.laid, manageDirectoryRequest]
  | rename uid tid oldPath newPath =>
      show _ ≤ (renameRequest specs.toServerSpecs uid tid oldPath newPath).data.length
      rw [rename_data, List.length_append, paddedName_length]
      obtain ⟨rfl, -⟩ | ⟨rfl, -⟩ : s = oldPath ∧ _ ∨ s = newPath ∧ _ := by
        simpa [Request.strings] using hs
      · simp
        omega
      · omega
  | findFirst2 uid tid path =>
      obtain ⟨rfl, -⟩ : s = path ∧ _ := by simpa [Request.strings] using hs
      simp [Request.laid, findFirstNext2Request, findParameters_length]
      omega
  | _ => cases hs

theorem map_place {r : Request Text} (junk : List UInt8) :
    (r.map fun t => (⟨t, junk⟩ : Memory)).map Memory.text = r := by
  cases r <;> rfl

/-- Enough text behind a string that is cut in a sequence overruns the buffer. -/
theorem complete_of_built {r : Request Text} (hunicode : specs.unicode = true)
    (hbuilt : ∀ m : Request Memory, m.map Memory.text = r →
      (m.laid specs).packet.length ≤ 4 + smbBufSize) :
    ∀ p ∈ r.strings, Complete p.1.bytes := by
  intro p hp
  by_contra hcut
  let place : Text → Memory := fun t => ⟨t, List.replicate (4228 + 1 + 1) 0x41⟩
  obtain ⟨d, hd, hlong⟩ := asciiToUtf16_incomplete p.1.bare hcut (4228 + 1)
  have hfield : (place p.1).field specs.unicode = d.toWritten := by
    rw [hunicode]
    exact Memory.field_of (congrArg (Option.map Decoded.toWritten) hd)
  have hmem : (place p.1, p.2) ∈ (r.map place).strings := by
    rw [strings_map]
    exact List.mem_map.mpr ⟨p, hp, rfl⟩
  have hge := @packet_ge specs (r.map place) _ _ hmem
  have hle := hbuilt (r.map place) (map_place _)
  rw [hfield] at hge
  have hsize : smbBufSize = 4224 := rfl
  have hout : 4229 ≤ d.toWritten.out.length := hlong
  omega

theorem writeAndX_byteCount {uid tid fid fileoffset : Nat} {writebuf : List UInt8}
    (h : writebuf.length = 65535) :
    word16 (bytesAt (writeAndXRequest uid tid fid fileoffset writebuf).message) 65 = 0 := by
  refine (writeAndXRequest uid tid fid fileoffset writebuf).message_byteCount.trans ?_
  show (writebuf.length % 65536 + 1) % 65536 = 0
  rw [h]

theorem encodable_of_wellFormed {r : Request Text}
    (hall : ∀ m : Request Memory, m.map Memory.text = r →
      (m.laid specs).WellFormed (m.fields specs)) : r.Encodable specs.toServerSpecs := by
  constructor
  · exact fun hunicode => complete_of_built hunicode fun m hm => (hall m hm).built
  · rintro uid tid fid fileoffset writebuf rfl hlength
    have hcount : (writebuf.length % 65536 + 1) % 65536 = 1 + writebuf.length :=
      (hall (.writeAndX uid tid fid fileoffset writebuf) rfl).count
    rw [hlength] at hcount
    exact absurd hcount (by decide)
  · rintro e rfl
    have hbuilt := (hall (.echo e) rfl).built
    have hpacket : (echoRequest e).packet.length = 41 + e.length := (echoRequest e).packet_length
    have hsize : smbBufSize = 4224 := rfl
    have hle : (echoRequest e).packet.length ≤ 4 + smbBufSize := hbuilt
    omega

end All

/-- Wherever its strings are in memory, a request that can be passed is well formed, except for
a string that ends in the middle of a sequence, a write of 65535 bytes, and an echo that overruns
the buffer. -/
theorem request_wellFormed_iff (specs : SessionSpecs) {r : Request Text} (h : r.Passable) :
    (∀ m : Request Memory, m.map Memory.text = r → (m.laid specs).WellFormed (m.fields specs)) ↔
      r.Encodable specs.toServerSpecs := by
  constructor
  · exact encodable_of_wellFormed
  · rintro he m rfl
    exact wellFormed_of_encodable h he

/-- A server with Unicode and user level security. -/
def unicodeServer : SessionSpecs := ⟨⟨true, true, true⟩, true, 2, 0⟩

def shortPath : Text := ⟨[0x5c, 0x41], by decide⟩

theorem shortPath_passable : (Request.delete 1 1 shortPath).Passable := by
  refine ⟨fun p hp => ?_, nofun, nofun⟩
  obtain rfl := List.mem_singleton.mp hp
  decide

/-- A path of two characters can be deleted. -/
theorem delete_wellFormed_short : (Request.delete 1 1 shortPath).Passable ∧
    ∀ m : Request Memory, m.map Memory.text = .delete 1 1 shortPath →
      (m.laid unicodeServer).WellFormed (m.fields unicodeServer) := by
  refine ⟨shortPath_passable, (request_wellFormed_iff unicodeServer shortPath_passable).mpr ?_⟩
  refine ⟨fun _ p hp => ?_, nofun, nofun⟩
  obtain rfl := List.mem_singleton.mp hp
  exact complete_of_announced (announced_of_all (by decide))

/-- A write of the largest size has a `ByteCount` of 0 for its 65536 bytes. -/
theorem writeAndX_wraps :
    (Request.writeAndX 1 1 1 0 (List.replicate 65535 0x41)).Passable ∧
    word16 (bytesAt (writeAndXRequest 1 1 1 0 (List.replicate 65535 0x41)).message) 65 = 0 ∧
    ((writeAndXRequest 1 1 1 0 (List.replicate 65535 0x41)).data ++
      (writeAndXRequest 1 1 1 0 (List.replicate 65535 0x41)).payload).length = 65536 ∧
    ¬(writeAndXRequest 1 1 1 0 (List.replicate 65535 0x41)).WellFormed
      ((Request.writeAndX 1 1 1 0 (List.replicate 65535 0x41)).fields unicodeServer) := by
  have hlength : (List.replicate 65535 (0x41 : UInt8)).length = 65535 := List.length_replicate
  have hdata : ([0] ++ List.replicate 65535 (0x41 : UInt8)).length = 65536 := by
    rw [List.length_append, hlength]
    rfl
  refine ⟨⟨nofun, ?_, nofun⟩, writeAndX_byteCount hlength, hdata, fun hwell => ?_⟩
  · rintro uid tid fid fileoffset writebuf ⟨⟩
    rw [hlength]
    decide
  · have hcount := hwell.count
    rw [← List.length_append] at hcount
    refine absurd (hcount.trans hdata) ?_
    exact Nat.ne_of_lt (Nat.mod_lt _ (by decide))

end BdmAssault.Smb
