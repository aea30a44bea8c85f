import Oasi.Release.ArchiveLayout

/-! # What the reader makes of a directory

Names are decoded without loss. A directory whose entries have neither extra field nor
comment is the headers and the names that were read from it, whatever lengths the last
of the headers declares.
-/

namespace Oasi

namespace Release

/-! ## Names -/

/-- The bytes that a name was decoded from. -/
theorem rawName_of_decode {flags : Nat} {bytes : Bytes} {name : Text}
    (h : decodeFilename flags bytes = .ok name) : rawName flags name = bytes := by
  unfold decodeFilename at h
  unfold rawName
  split at h
  next hflag =>
    rw [if_pos hflag]
    split at h
    next => cases h
    next text htext =>
      cases h
      rw [← utf8_eq_encode]
      exact fromUtf8_eq_some.mp htext
  next hflag =>
    cases h
    rw [if_neg hflag, cp437Encode_decode, Option.getD_some]

/-- Neither decoding makes a zero byte vanish. -/
theorem zero_mem_of_decode {flags : Nat} {bytes : Bytes} {name : Text}
    (h : decodeFilename flags bytes = .ok name) (hbyte : 0 ∈ bytes) : '\x00' ∈ name := by
  unfold decodeFilename at h
  split at h
  next =>
    split at h
    next => cases h
    next text htext =>
      rw [← fromUtf8_eq_some.mp htext, utf8_eq_encode] at hbyte
      cases h
      exact zero_mem_of_mem_encode hbyte
  next =>
    cases h
    exact List.mem_map_of_mem hbyte

theorem decodeFilename_nil (flags : Nat) : decodeFilename flags [] = .ok [] := by
  unfold decodeFilename
  rw [fromUtf8_nil]
  split <;> rfl

/-! ## Entries -/

/-- The attributes of an entry without extra field and comment. -/
def CentralHeader.info (header : CentralHeader) (concat : Int) (filename : Text) : ZipInfo :=
  { zipInfo header filename [] [] with headerOffset := header.headerOffset + concat }

/-- The bytes of the name as they stand in the directory. -/
def CentralEntry.nameBytes (entry : CentralEntry) : Bytes :=
  rawName entry.header.flagBits entry.info.origFilename

/-- The header and the name. -/
def CentralEntry.record (entry : CentralEntry) : Bytes := entry.header.pack ++ entry.nameBytes

/-- What holds of an entry that was read without extra field and comment. -/
structure CentralEntry.Plain (concat : Int) (entry : CentralEntry) : Prop where
  unpack_pack : CentralHeader.unpack entry.header.pack = entry.header
  signature : entry.header.signature = centralSignature
  info : entry.info = entry.header.info concat entry.info.origFilename

theorem decodeZip64Extra_keeps {data : Bytes} {info result : ZipInfo}
    (h : decodeZip64Extra data info = .ok result) :
    result.extra = info.extra ∧ result.comment = info.comment := by
  unfold decodeZip64Extra at h
  simp only [bind_eq_ok] at h
  obtain ⟨_, _, _, _, _, _, h⟩ := h
  cases h
  exact ⟨rfl, rfl⟩

theorem decodeExtra_keeps {fuel : Nat} {extra : Bytes} {info result : ZipInfo}
    (h : decodeExtra fuel extra info = .ok result) :
    result.extra = info.extra ∧ result.comment = info.comment := by
  induction fuel generalizing extra info with
  | zero =>
      cases h
      exact ⟨rfl, rfl⟩
  | succ fuel ih =>
      rw [decodeExtra] at h
      split at h
      next =>
        cases h
        exact ⟨rfl, rfl⟩
      next =>
        obtain ⟨_, _, h⟩ := bind_eq_ok.mp h
        split at h
        next =>
          obtain ⟨between, hbetween, h⟩ := bind_eq_ok.mp h
          obtain ⟨hextra, hcomment⟩ := ih h
          obtain ⟨hextraBetween, hcommentBetween⟩ := decodeZip64Extra_keeps hbetween
          exact ⟨hextra.trans hextraBetween, hcomment.trans hcommentBetween⟩
        next => exact ih h

/-- The loop ends with the data, or behind them where the lengths overshoot. -/
def Remaining (size total : Nat) (data : Bytes) : Prop :=
  total + data.length = size ∨ size ≤ total ∧ data = []

theorem Remaining.drop {size total : Nat} {data : Bytes} (h : Remaining size total data)
    (hmore : ¬size ≤ total) (length : Nat) :
    Remaining size (total + length) (data.drop length) := by
  rcases h with hsize | ⟨hdone, _⟩
  · by_cases hfits : length ≤ data.length
    · refine .inl ?_
      rw [List.length_drop]
      omega
    · exact .inr ⟨by omega, List.drop_eq_nil_of_le (by omega)⟩
  · exact absurd hdone hmore

theorem readEntries_done {concat : Int} {size fuel total : Nat} {data : Bytes}
    (hdone : size ≤ total) : readEntries concat size fuel total data = .ok [] := by
  cases fuel <;> rw [readEntries, if_pos hdone]

/-- Where the loop ends, nothing is left. -/
theorem nil_of_readEntries_done {concat : Int} {size fuel total : Nat} {data : Bytes}
    {entries : List CentralEntry} (h : readEntries concat size fuel total data = .ok entries)
    (hdone : size ≤ total) (hremaining : Remaining size total data) :
    entries = [] ∧ data = [] := by
  rw [readEntries_done hdone] at h
  cases h
  rcases hremaining with hsize | ⟨_, hdata⟩
  · exact ⟨rfl, List.eq_nil_of_length_eq_zero (by omega)⟩
  · exact ⟨rfl, hdata⟩

/-- One round of the loop: the header, the name and the entries behind it. -/
theorem readEntries_step {concat : Int} {size fuel total : Nat} {data : Bytes}
    {entries : List CentralEntry} (hmore : ¬size ≤ total)
    (h : readEntries concat size fuel total data = .ok entries) :
    ∃ next header filename info rest, fuel = next + 1 ∧ (data.take 46).length = 46 ∧
      header = CentralHeader.unpack (data.take 46) ∧ header.signature = centralSignature ∧
      decodeFilename header.flagBits (slice data 46 header.nameLength) = .ok filename ∧
      decodeExtra (slice data (46 + header.nameLength) header.extraLength).length
        (slice data (46 + header.nameLength) header.extraLength)
        (zipInfo header filename (slice data (46 + header.nameLength) header.extraLength)
          (slice data (46 + header.nameLength + header.extraLength) header.commentLength)) =
        .ok info ∧
      readEntries concat size next
        (total + (46 + header.nameLength + header.extraLength + header.commentLength))
        (data.drop (46 + header.nameLength + header.extraLength + header.commentLength)) =
        .ok rest ∧
      entries = ⟨header, { info with headerOffset := info.headerOffset + concat }⟩ :: rest := by
  cases fuel with
  | zero =>
      rw [readEntries, if_neg hmore] at h
      cases h
  | succ next =>
      rw [readEntries, if_neg hmore] at h
      simp only [bind_eq_ok, failIf_eq_ok, not_not] at h
      obtain ⟨_, hlength, _, hsignature, filename, hname, _, _, info, hinfo, rest, hrest, h⟩ := h
      cases h
      exact ⟨next, _, filename, info, rest, rfl, hlength, rfl, hsignature, hname, hinfo, hrest,
        rfl⟩

/-- A record of the directory whose extra field and comment came out empty stands in front of
what is read next, or is cut off by the end of the data. -/
theorem drop_of_slices_eq_nil {data : Bytes} {offset extraLength commentLength : Nat}
    (hextra : slice data offset extraLength = [])
    (hcomment : slice data (offset + extraLength) commentLength = []) :
    data.drop offset = data.drop (offset + extraLength + commentLength) := by
  rcases eq_zero_or_le_of_slice_eq_nil hextra with rfl | hend
  · rcases eq_zero_or_le_of_slice_eq_nil hcomment with rfl | hend
    · rfl
    · rw [Nat.add_zero] at hend
      rw [List.drop_eq_nil_of_le hend, List.drop_eq_nil_of_le (by omega)]
  · rw [List.drop_eq_nil_of_le hend, List.drop_eq_nil_of_le (by omega)]

/-- A directory without extra fields and comments is the records that were read from it. -/
theorem readEntries_plain {concat : Int} {size fuel total : Nat} {data : Bytes}
    {entries : List CentralEntry} (h : readEntries concat size fuel total data = .ok entries)
    (hempty : ∀ entry ∈ entries, entry.info.extra = [] ∧ entry.info.comment = [])
    (hremaining : Remaining size total data) :
    (∀ entry ∈ entries, entry.Plain concat) ∧ data = entries.flatMap CentralEntry.record := by
  induction fuel generalizing total data entries with
  | zero =>
      by_cases hdone : size ≤ total
      · obtain ⟨rfl, rfl⟩ := nil_of_readEntries_done h hdone hremaining
        exact ⟨by simp, rfl⟩
      · obtain ⟨_, _, _, _, _, hfuel, _⟩ := readEntries_step hdone h
        cases hfuel
  | succ fuel ih =>
      by_cases hdone : size ≤ total
      · obtain ⟨rfl, rfl⟩ := nil_of_readEntries_done h hdone hremaining
        exact ⟨by simp, rfl⟩
      · obtain ⟨_, header, filename, info, rest, hfuel, hlength, hheader, hsignature, hname, hinfo,
          hrest, rfl⟩ := readEntries_step hdone h
        cases hfuel
        -- an empty extra field overrides nothing, so the info is what the header says
        have hkept := decodeExtra_keeps hinfo
        obtain ⟨hextra, hcomment⟩ := hempty _ List.mem_cons_self
        replace hextra := hkept.1.symm.trans hextra
        replace hcomment := hkept.2.symm.trans hcomment
        have hdrop := drop_of_slices_eq_nil hextra hcomment
        dsimp only [zipInfo] at hextra hcomment
        rw [hextra, hcomment] at hinfo
        cases hinfo
        obtain ⟨hplain, hdata⟩ := ih hrest
          (fun entry hentry => hempty entry (List.mem_cons_of_mem _ hentry))
          (hremaining.drop hdone _)
        have hpack : header.pack = data.take 46 := by
          rw [hheader, CentralHeader.pack_unpack hlength]
        refine ⟨List.forall_mem_cons.mpr ⟨⟨?_, hsignature, rfl⟩, hplain⟩, ?_⟩
        · change CentralHeader.unpack header.pack = header
          rw [hpack, hheader]
        · -- the data is the header, the name and what the next round reads
          calc
            data = data.take 46 ++ data.drop 46 := (List.take_append_drop 46 data).symm
            _ = header.pack ++ (slice data 46 header.nameLength ++
                data.drop (46 + header.nameLength)) := by
              rw [hpack, ← drop_eq_slice_append]
            _ = header.pack ++ (rawName header.flagBits filename ++
                rest.flatMap CentralEntry.record) := by
              rw [rawName_of_decode hname, hdrop, ← hdata]
            _ = _ := by
              rw [List.flatMap_cons, ← List.append_assoc]
              rfl

/-! ## The end record -/

/-- The ZIP64 record and its locator, where they were used. -/
def ZipFile.block (zip : ZipFile) (archive : Bytes) : Bytes :=
  if zip.record.zip64 then slice archive (archive.length - 98) 76 else []

/-- An end record is kept, or overridden by the 76 bytes in front of it. -/
theorem endRecData64_eq_ok {archive : Bytes} {record result : EndRecord}
    (h : endRecData64 archive record = .ok result) :
    result = record ∨
      76 ≤ record.location ∧ field (slice archive (record.location - 20) 20) 16 4 ≤ 1 ∧
        result = { record with
          zip64 := true
          size := field (slice archive (record.location - 76) 56) 40 8
          offset := field (slice archive (record.location - 76) 56) 48 8 } := by
  unfold endRecData64 at h
  split at h
  next =>
    cases h
    exact .inl rfl
  next =>
    dsimp only at h
    split at h
    next =>
      cases h
      exact .inl rfl
    next =>
      split at h
      next => cases h
      next hdisks =>
        split at h
        next => cases h
        next hlocation =>
          split at h
          next =>
            cases h
            exact .inl rfl
          next =>
            cases h
            push Not at hdisks
            exact .inr ⟨Nat.not_lt.mp hlocation, hdisks.2, rfl⟩

/-- The signature and the comment length, between which the end record is searched. -/
theorem ends_of_endHeader {bytes : Bytes} {count size offset : Nat} (hlength : bytes.length = 22)
    (hend : EndHeader.unpack bytes = endHeader count size offset) :
    bytes.take 4 = eocdSignature ∧ bytes.drop 20 = [0, 0] := by
  have hsignature : bytes.take 4 = eocdSignature := congrArg EndHeader.signature hend
  have hsize : field bytes 20 2 = 0 := congrArg EndHeader.commentSize hend
  have hcomment : bytes.drop 20 = leBytes 2 0 ++ bytes.drop 22 := by
    rw [← hsize]
    exact drop_eq_leBytes_append hlength 20 2 (by decide)
  rw [List.drop_eq_nil_of_le (Nat.le_of_eq hlength)] at hcomment
  exact ⟨hsignature, hcomment⟩

/-- An end record in the last 22 bytes is the one that is read. -/
theorem endRecData_of_endHeader {archive : Bytes} {count size offset : Nat}
    (hlong : 22 ≤ archive.length)
    (hend : EndHeader.unpack (archive.drop (archive.length - 22)) = endHeader count size offset) :
    endRecData archive =
      (endRecData64 archive ⟨false, size, offset, [], archive.length - 22⟩).map some := by
  have hlength : (archive.drop (archive.length - 22)).length = 22 := by
    rw [List.length_drop]
    omega
  unfold endRecData
  rw [if_neg (Nat.not_lt.mpr hlong)]
  dsimp only
  rw [if_pos (ends_of_endHeader hlength hend), hend]
  rfl

theorem openZip_eq_ok {archive : Bytes} {zip : ZipFile} (h : openZip archive = .ok zip) :
    endRecData archive = .ok (some zip.record) ∧
      (zip.startDir : Int) = zip.record.offset + zip.record.concat ∧
      readEntries zip.record.concat zip.record.size
        (slice archive zip.startDir zip.record.size).length 0
        (slice archive zip.startDir zip.record.size) = .ok zip.entries := by
  unfold openZip at h
  obtain ⟨found, hfound, h⟩ := bind_eq_ok.mp h
  cases found with
  | none => cases h
  | some record =>
      simp only [bind_eq_ok, failIf_eq_ok] at h
      obtain ⟨_, hstart, entries, hentries, h⟩ := h
      cases h
      refine ⟨?_, Int.toNat_of_nonneg (by omega), hentries⟩
      cases hdata : endRecData archive with
      | error error =>
          rw [hdata] at hfound
          cases hfound
      | ok value =>
          rw [hdata] at hfound
          cases hfound
          rfl

/-- The block ends in the high byte of a number of disks, which is at most one. -/
theorem getLast?_block {archive : Bytes} (hlong : 98 ≤ archive.length)
    (hdisks : field (slice archive (archive.length - 22 - 20) 20) 16 4 ≤ 1) :
    (slice archive (archive.length - 98) 76).getLast? = some 0 := by
  have hfield : (slice archive (archive.length - 98 + 72) 4).length = 4 :=
    length_slice (by omega)
  have hblock : slice archive (archive.length - 98) 76 =
      slice archive (archive.length - 98) 72 ++ slice archive (archive.length - 98 + 72) 4 := by
    rw [slice, slice, slice, ← List.drop_drop, ← List.take_add]
  have hlast : (slice archive (archive.length - 98 + 72) 4).getLast? = some 0 := by
    rw [field_slice (by decide), show archive.length - 22 - 20 + 16 = archive.length - 98 + 72 by
      omega] at hdisks
    exact getLast?_of_leValue_lt hfield (Nat.lt_of_le_of_lt hdisks (by decide))
  rw [hblock, List.getLast?_append, hlast]
  rfl

/-- Where the block of an archive with an end record in its last 22 bytes stands, and what
it does to the offsets. -/
theorem block_of_endHeader {archive : Bytes} {zip : ZipFile} {count size : Nat}
    (hlong : zip.startDir + size + 22 = archive.length)
    (hend : EndHeader.unpack (archive.drop (archive.length - 22)) =
      endHeader count size zip.startDir)
    (h : openZip archive = .ok zip) :
    zip.block archive = slice archive (zip.startDir + zip.record.size) (zip.block archive).length ∧
      zip.record.size + (zip.block archive).length = size ∧
      zip.record.concat = blockShift zip.startDir (zip.block archive) ∧
      (zip.record.zip64 = true → (zip.block archive).getLast? = some 0) := by
  obtain ⟨hrecord, hstart, _⟩ := openZip_eq_ok h
  rw [endRecData_of_endHeader (by omega) hend] at hrecord
  cases hoverride : endRecData64 archive
    ⟨false, size, zip.startDir, [], archive.length - 22⟩ with
  | error error =>
      rw [hoverride] at hrecord
      cases hrecord
  | ok record =>
      rw [hoverride] at hrecord
      have hsame : record = zip.record := by injections
      rw [hsame] at hoverride
      unfold ZipFile.block
      rcases endRecData64_eq_ok hoverride with hkept | ⟨hlocation, hdisks, hnew⟩
      · -- no ZIP64 record was used
        rw [hkept, EndRecord.concat]
        refine ⟨(slice_zero _ _).symm, rfl, ?_, fun hzip64 => by cases hzip64⟩
        simp [blockShift]
        omega
      · dsimp only at hlocation hdisks
        -- the locator is the last 20 bytes of the block and the record the 56 before it
        have hlength : (slice archive (archive.length - 98) 76).length = 76 :=
          length_slice (by omega)
        have hne : slice archive (archive.length - 98) 76 ≠ [] := by
          intro hnil
          rw [hnil] at hlength
          cases hlength
        have hoffset : zip.record.offset = field (slice archive (archive.length - 98) 76) 48 8 := by
          rw [hnew]
          dsimp only
          rw [field_slice (by decide), field_slice (by decide)]
          congr 1
        have hzip64 : zip.record.zip64 = true := by rw [hnew]
        have hrecordLocation : zip.record.location = archive.length - 22 := by rw [hnew]
        rw [EndRecord.concat, hzip64, hrecordLocation, if_pos rfl] at hstart
        rw [EndRecord.concat, hzip64, hrecordLocation, if_pos rfl, if_pos rfl, hlength]
        rw [blockShift, if_neg hne, ← hoffset]
        refine ⟨?_, ?_, ?_, fun _ => getLast?_block (by omega) hdisks⟩
        · congr 1
          omega
        · omega
        · omega

/-- An archive with an end record in its last 22 bytes: what is read is the directory, the
rest up to the end record is the block. -/
theorem openZip_of_endHeader {archive : Bytes} {zip : ZipFile} {count size : Nat}
    (hlong : zip.startDir + size + 22 = archive.length)
    (hend : EndHeader.unpack (archive.drop (archive.length - 22)) =
      endHeader count size zip.startDir)
    (h : openZip archive = .ok zip) :
    ∃ directory : Bytes,
      archive.drop zip.startDir =
        directory ++ (zip.block archive ++ archive.drop (archive.length - 22)) ∧
      directory.length + (zip.block archive).length = size ∧
      readEntries zip.record.concat directory.length directory.length 0 directory =
        .ok zip.entries := by
  obtain ⟨hblock, hsize, _, _⟩ := block_of_endHeader hlong hend h
  obtain ⟨_, _, hentries⟩ := openZip_eq_ok h
  have hlength : (slice archive zip.startDir zip.record.size).length = zip.record.size :=
    length_slice (by omega)
  refine ⟨slice archive zip.startDir zip.record.size, ?_, ?_, ?_⟩
  · have hposition : zip.startDir + zip.record.size + (zip.block archive).length =
        archive.length - 22 := by omega
    rw [drop_eq_slice_append archive zip.startDir zip.record.size,
      drop_eq_slice_append archive _ (zip.block archive).length, ← hblock, hposition]
  · rw [hlength, hsize]
  · rw [hlength] at hentries ⊢
    exact hentries

end Release

end Oasi
