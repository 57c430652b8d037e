import BlockOS.Fs.Initramfs

/-! The script that writes the archive (`make_initramfs.py`), and what one turn of the walk reads
of what it has written. -/

namespace BlockOS.Fs
open Words Paths Loops List
open BitVec (ofNat toNat_ofNat)

structure ArchiveEntry where
  name : List Byte
  mode : Nat
  mtime : Nat
  data : List Byte

def hexChar (d : Nat) : Byte := if d < 10 then ofNat 8 (0x30 + d) else ofNat 8 (0x61 + (d - 10))

def hexDigits (n value : Nat) : List Nat :=
  let digits := (Nat.digits 16 value).reverse
  List.replicate (n - digits.length) 0 ++ digits

def hex8 (value : Nat) : List Byte := (hexDigits 8 value).map hexChar

def encodeHeader (ino mode mtime filesize namesize : Nat) : Option (List Byte) :=
  let fields := [ino, mode, 0, 0, 1, mtime, filesize, 0, 0, 0, 0, namesize, 0]
  let header := cpioMagic ++ fields.flatMap hex8
  if header.length ≠ cpioHeaderSize then none else some header

def padding (length : Nat) : List Byte := List.replicate ((length + 3) / 4 * 4 - length) 0

local instance : LawfulBEq Byte := inferInstance

def appendEntry (out : List Byte) (entry : ArchiveEntry) (ino : Nat) : Option (List Byte) :=
  if 0 ∈ entry.name then none
  else
    match encodeHeader ino entry.mode entry.mtime entry.data.length (entry.name.length + 1) with
    | none => none
    | some header =>
      let out := out ++ header ++ entry.name ++ [0]
      let out := out ++ padding out.length
      let out := out ++ entry.data
      some (out ++ padding out.length)

def appendEntries : List Byte → List ArchiveEntry → Nat → Option (List Byte)
  | out, [], _ => some out
  | out, entry :: entries, ino =>
    match appendEntry out entry ino with
    | none => none
    | some out => appendEntries out entries (ino + 1)

def buildArchive (entries : List ArchiveEntry) : Option (List Byte) :=
  match appendEntries [] entries 1 with
  | none => none
  | some out =>
    appendEntry out { name := trailerName, mode := 0, mtime := 0, data := [] } (entries.length + 1)

theorem hexDigit_hexChar : ∀ d < 16, hexDigit (hexChar d) = some (ofNat 32 d) := by decide

theorem shift_or_digit (v : BitVec 32) (hd : d < 16) :
    v <<< 4 ||| ofNat 32 d = ofNat 32 (v.toNat * 16 + d) := by
  apply BitVec.eq_of_toNat_eq
  have hshift : (v <<< 4).toNat = 2 ^ 4 * (v.toNat % 2 ^ 28) := by
    rw [BitVec.toNat_shiftLeft, Nat.shiftLeft_eq]
    omega
  rw [BitVec.toNat_or, hshift, toNat_ofNat, Nat.mod_eq_of_lt (show d < 2 ^ 32 by omega),
    ← Nat.two_pow_add_eq_or_of_lt (show d < 2 ^ 4 by omega), toNat_ofNat]
  omega

theorem hexLoop_digits {ds : List Nat} (hds : ∀ d ∈ ds, d < 16) (n : Nat) :
    hexLoop (ds.map hexChar) (ofNat 32 n) = some (ofNat 32 (ds.foldl (fun n d => n * 16 + d) n)) := by
  induction ds generalizing n with
  | nil => rfl
  | cons d ds ih =>
    have hd := hds d mem_cons_self
    rw [map_cons, hexLoop, hexDigit_hexChar d hd]
    dsimp only
    rw [shift_or_digit _ hd, foldl_cons]
    have hmod : ofNat 32 ((ofNat 32 n).toNat * 16 + d) = ofNat 32 (n * 16 + d) := by
      apply BitVec.eq_of_toNat_eq
      simp only [toNat_ofNat]
      omega
    rw [hmod]
    exact ih (fun e he => hds e (mem_cons_of_mem d he)) _

theorem foldl_hexDigits (n value : Nat) : (hexDigits n value).foldl (fun n d => n * 16 + d) 0 =
    value := by
  have hzeros : ∀ k, (List.replicate k 0).foldl (fun n d => n * 16 + d) 0 = 0 := by
    intro k
    induction k with
    | zero => rfl
    | succ k ih => exact ih
  unfold hexDigits
  dsimp only
  rw [foldl_append, hzeros, foldl_reverse]
  have h := Nat.ofDigits_digits 16 value
  rw [Nat.ofDigits_eq_foldr] at h
  convert h using 2
  funext d n
  rw [Nat.add_comm, Nat.mul_comm]
  rfl

theorem hexField_hex8 (value : Nat) : hexField (hex8 value) = some (ofNat 32 value) := by
  have hds : ∀ d ∈ hexDigits 8 value, d < 16 := by
    intro d hd
    unfold hexDigits at hd
    rcases mem_append.mp hd with hd | hd
    · rw [eq_of_mem_replicate hd]
      decide
    · exact Nat.digits_lt_base (by decide) (mem_reverse.mp hd)
  have h := hexLoop_digits hds 0
  rw [foldl_hexDigits] at h
  exact h

theorem length_hex8 (value : Nat) : (hex8 value).length = max 8 (Nat.digits 16 value).length := by
  unfold hex8 hexDigits
  simp only [length_map, length_append, length_replicate, length_reverse]
  omega

theorem lt_of_length_hex8 (h : (hex8 value).length = 8) : value < 2 ^ 32 := by
  rw [length_hex8] at h
  calc value < 16 ^ (Nat.digits 16 value).length := Nat.lt_base_pow_length_digits (by decide)
    _ ≤ 16 ^ 8 := Nat.pow_le_pow_right (by decide) (by omega)
    _ = 2 ^ 32 := by norm_num

theorem encodeHeader_spec (h : encodeHeader ino mode mtime filesize namesize = some header) :
    header.length = cpioHeaderSize ∧ header.take 6 = cpioMagic ∧
      (header.drop 14).take 8 = hex8 mode ∧ (header.drop 54).take 8 = hex8 filesize ∧
      (header.drop 94).take 8 = hex8 namesize ∧ mode < 2 ^ 32 ∧ filesize < 2 ^ 32 ∧
        namesize < 2 ^ 32 := by
  unfold encodeHeader at h
  dsimp only at h
  split at h
  · cases h
  case isFalse hlen =>
    have hlen := not_not.mp hlen
    cases h
    refine ⟨hlen, rfl, ?_⟩
    -- a field has at least eight digits, and all thirteen have as many
    have hge : ∀ v, 8 ≤ (hex8 v).length := fun v => length_hex8 v ▸ Nat.le_max_left _ _
    have hmagic : cpioMagic.length = 6 := rfl
    have hcount : cpioHeaderSize = 110 := rfl
    have h0 : (hex8 0).length = 8 := by decide
    have h1 : (hex8 1).length = 8 := by decide
    simp only [flatMap_cons, flatMap_nil, append_nil, length_append, hmagic, hcount, h0, h1] at hlen
    have := hge ino
    have := hge mode
    have := hge mtime
    have := hge filesize
    have := hge namesize
    have hi : (hex8 ino).length = 8 := by omega
    have hm : (hex8 mode).length = 8 := by omega
    have ht : (hex8 mtime).length = 8 := by omega
    have hf : (hex8 filesize).length = 8 := by omega
    have hn : (hex8 namesize).length = 8 := by omega
    refine ⟨?_, ?_, ?_, lt_of_length_hex8 hm, lt_of_length_hex8 hf, lt_of_length_hex8 hn⟩
    all_goals
      simp only [flatMap_cons, flatMap_nil, append_nil, drop_append, take_append, hmagic, h0, h1,
        hi, hm, ht, hf, hn]
      simp [hmagic, h0, h1, hi, hm, ht, hf, hn, drop_of_length_le, take_of_length_le]

structure Written (out : List Byte) (entry : ArchiveEntry) (out' header pad pad' : List Byte) :
    Prop where
  bytes : out' = out ++ (header ++ ((entry.name ++ [0]) ++ (pad ++ (entry.data ++ pad'))))
  data : out.length + header.length + (entry.name.length + 1) + pad.length =
    (out.length + header.length + (entry.name.length + 1) + 3) / 4 * 4
  length : out'.length = (out.length + header.length + (entry.name.length + 1) + pad.length +
    entry.data.length + 3) / 4 * 4
  clean : 0 ∉ entry.name

theorem length_padding (n : Nat) : n + (padding n).length = (n + 3) / 4 * 4 := by
  unfold padding
  rw [length_replicate]
  omega

theorem appendEntry_written (h : appendEntry out entry ino = some out') : ∃ header pad pad',
      encodeHeader ino entry.mode entry.mtime entry.data.length (entry.name.length + 1) = some header ∧
        Written out entry out' header pad pad' := by
  unfold appendEntry at h
  split at h
  · cases h
  case isFalse hclean =>
    split at h
    · cases h
    case h_2 header hheader =>
      dsimp only at h
      have hfront : out ++ header ++ entry.name ++ [(0 : Byte)] =
          out ++ (header ++ (entry.name ++ [0])) := by
        simp only [append_assoc]
      rw [hfront] at h
      have hpad := length_padding (out ++ (header ++ (entry.name ++ [(0 : Byte)]))).length
      generalize padding (out ++ (header ++ (entry.name ++ [(0 : Byte)]))).length = pad at h hpad
      have hpad' :=
        length_padding (out ++ (header ++ (entry.name ++ [(0 : Byte)])) ++ pad ++ entry.data).length
      generalize padding (out ++ (header ++ (entry.name ++ [(0 : Byte)])) ++ pad ++
        entry.data).length = pad' at h hpad'
      cases h
      simp only [length_append, length_singleton] at hpad hpad'
      refine ⟨header, pad, pad', hheader, by simp only [append_assoc], by omega, ?_, hclean⟩
      simp only [length_append, length_singleton]
      omega

theorem read_part {a : Archive} {before part after : List Byte}
    (ha : a.bytes = before ++ (part ++ after))
    {offset n : Nat} (ho : offset = before.length) (hn : n = part.length) : a.read offset n =
      some part := by
  subst ho hn
  unfold Archive.read
  rw [ha, if_pos (by simp only [length_append]; omega), drop_left, take_left]

theorem align4_eq {n size : Nat} (h : (n + 3) / 4 * 4 ≤ size) (hs : size < 2 ^ 64) :
    align4 n = (n + 3) / 4 * 4 := by
  unfold align4 wrap
  rw [Nat.mod_eq_of_lt]
  omega

variable {μ : Type} {grants : Nat → Nat → Bool} {setMode : List Byte → BitVec 32 → μ → μ}
  {a : Archive}

theorem walkEntry_append {out out' post : List Byte} {entry : ArchiveEntry} {ino : Nat}
    (h : appendEntry out entry ino = some out') (ha : a.bytes = out' ++ post)
      (hname : entry.name ≠ []) (m : Mount μ) :
    walkEntry grants setMode a out.length m =
      if entry.name = trailerName then .trailer m
      else
        match makePath entry.name with
        | none => .failed m
        | some path =>
          match installEntry grants setMode path (ofNat 32 entry.mode) entry.data m with
          | (false, m) => .failed m
          | (true, m) => .more out'.length m := by
  obtain ⟨header, pad, pad', hheader, hw⟩ := appendEntry_written h
  obtain ⟨hlen, hmagic, hmode, hfile, hnamesize, -, hfile32, hname32⟩ := encodeHeader_spec hheader
  have hsize := a.fits
  have hdata := hw.data
  have hnext := hw.length
  have htotal : a.bytes.length = out'.length + post.length := by rw [ha, length_append]
  rw [hw.bytes] at ha
  simp only [append_assoc] at ha
  have hpos := length_pos_iff.mpr hname
  have hhead : cpioHeaderSize = 110 := rfl
  rw [hlen] at hdata hnext
  have hle : out.length + 110 + (entry.name.length + 1) + pad.length + entry.data.length ≤
    out'.length := by omega
  -- the header
  have hread : a.read out.length cpioHeaderSize = some header := read_part ha rfl hlen.symm
  unfold walkEntry
  dsimp only
  rw [if_neg (by omega), hread]
  dsimp only
  rw [hmagic, hmode, hfile, hnamesize, hexField_hex8, hexField_hex8, hexField_hex8,
    if_neg (not_not.mpr rfl)]
  dsimp only
  rw [toNat_ofNat, toNat_ofNat, Nat.mod_eq_of_lt hfile32, Nat.mod_eq_of_lt hname32]
  -- the name
  unfold walkNamed
  dsimp only
  have hoff : wrap (out.length + cpioHeaderSize) = out.length + cpioHeaderSize :=
    Nat.mod_eq_of_lt (by omega)
  have hname : a.read (out.length + cpioHeaderSize) (entry.name.length + 1) =
      some (entry.name ++ [0]) := by
    refine @read_part _ (out ++ header) _ (pad ++ (entry.data ++ (pad' ++ post))) ?_ _ _ ?_ ?_
    · rw [ha]
      simp only [append_assoc]
    · rw [length_append, hlen]
    · rw [length_append]
      rfl
  rw [if_neg (by omega), hoff, hname]
  dsimp only
  rw [getLast?_concat, dropLast_concat, if_neg (not_not.mpr rfl), if_neg hw.clean]
  -- the data
  have halign : align4 (wrap (out.length + cpioHeaderSize + (entry.name.length + 1))) =
      out.length + cpioHeaderSize + (entry.name.length + 1) + pad.length := by
    have hsum : wrap (out.length + cpioHeaderSize + (entry.name.length + 1)) =
        out.length + cpioHeaderSize + (entry.name.length + 1) := Nat.mod_eq_of_lt (by omega)
    rw [hsum, @align4_eq _ a.bytes.length (by omega) hsize]
    omega
  have hafter :
    align4 (wrap (out.length + cpioHeaderSize + (entry.name.length + 1) + pad.length +
      entry.data.length)) =
      out'.length := by
    have hsum : wrap (out.length + cpioHeaderSize + (entry.name.length + 1) + pad.length +
      entry.data.length) =
        out.length + cpioHeaderSize + (entry.name.length + 1) + pad.length + entry.data.length :=
      Nat.mod_eq_of_lt (by omega)
    rw [hsum, @align4_eq _ a.bytes.length (by omega) hsize]
    omega
  rw [halign, hafter, if_neg (by omega), if_neg (by omega)]
  have htrailer : (entry.name.length + 1 = trailerName.length + 1 ∧ (entry.name ++ [0]).take 10 =
    trailerName) ↔
      entry.name = trailerName := by
    constructor
    · rintro ⟨h1, h2⟩
      have hten : entry.name.length = 10 := Nat.succ.inj h1
      rwa [← hten, take_left] at h2
    intro h0
    rw [h0]
    exact ⟨rfl, rfl⟩
  have hbytes : a.read (out.length + cpioHeaderSize + (entry.name.length + 1) + pad.length)
    entry.data.length =
      some entry.data := by
    refine @read_part _ (out ++ (header ++ ((entry.name ++ [0]) ++ pad))) _ (pad' ++ post) ?_ _ _ ?_ rfl
    · rw [ha]
      simp only [append_assoc]
    · simp only [length_append, hlen, length_singleton]
      omega
  by_cases hlast : entry.name = trailerName
  · rw [if_pos (htrailer.mpr hlast), if_pos hlast]
  · rw [if_neg fun h0 => hlast (htrailer.mp h0), hbytes]
    exact (if_neg hlast).symm

end BlockOS.Fs
