import TelnetDebug.Symbols.LoaderSteps
import TelnetDebug.Symbols.TablePair

/-! Reading the file header and the section headers, before the sections are
gone through. -/
namespace TelnetDebug.Image

open CBuffer Posix Guarded

def ehdrOf (file : List UInt8) : Ehdr := .ofBytes (slice file 0 ehdrSize)

/-- Section header `k` of the file. -/
def sectionOf (file : List UInt8) (k : Nat) : Shdr :=
  .ofBytes (slice file ((ehdrOf file).eShoff.toNat + k * shdrSize) shdrSize)

/-- The string table that a section names. -/
def linkOf (file : List UInt8) (k : Nat) : Nat := (sectionOf file k).shLink.toNat

/-- The section headers as they are read. -/
def sectionHeaders (file : List UInt8) : List UInt8 :=
  slice file (ehdrOf file).eShoff.toNat ((ehdrOf file).eShnum.toNat * shdrSize)

/-- The section headers have the size that the loader expects, and lie in the
file with the section names, for which memory has room. -/
@[mk_iff] structure HeadersInFile (file : List UInt8) : Prop where
  small : file.length < 2 ^ 63
  shoff : 0 < (ehdrOf file).eShoff
  shentsize : (ehdrOf file).eShentsize.toNat = shdrSize
  sectionsInFile : (ehdrOf file).eShoff.toNat + (ehdrOf file).eShnum.toNat * shdrSize ≤ file.length
  shstrndx : (ehdrOf file).eShstrndx < (ehdrOf file).eShnum
  namesInFile : Shdr.InFile file (sectionOf file (ehdrOf file).eShstrndx.toNat)
  namesFit : (sectionOf file (ehdrOf file).eShstrndx.toNat).shSize.toNat < 2 ^ 47

instance (file : List UInt8) : Decidable (HeadersInFile file) :=
  decidable_of_iff _ (headersInFile_iff file).symm

namespace HeadersInFile

variable {file : List UInt8} (h : HeadersInFile file)
include h

theorem sectionHeaders_length :
    (sectionHeaders file).length = (ehdrOf file).eShnum.toNat * shdrSize :=
  slice_length h.sectionsInFile

theorem sechdrAt_sectionHeaders {k : Nat} (hk : k < (ehdrOf file).eShnum.toNat) :
    sechdrAt (sectionHeaders file) k = pure (sectionOf file k) := by
  have hEntry : (k + 1) * shdrSize ≤ (ehdrOf file).eShnum.toNat * shdrSize :=
    Nat.mul_le_mul_right shdrSize hk
  rw [sechdrAt_eq (h.sectionHeaders_length ▸ hEntry), sectionHeaders, slice_slice]
  · rfl
  · rw [← Nat.succ_mul]
    exact hEntry

/-- The loader reads the section headers of the file, and there are some. -/
theorem headers_given {offset size : UInt64} (hOffset : offset = (ehdrOf file).eShoff)
    (hSize : size.toNat = (ehdrOf file).eShnum.toNat * shdrSize) : ¬(offset = 0 ∨ size = 0) := by
  have hShoff := UInt64.lt_iff_toNat_lt.mp h.shoff
  have hShnum := UInt16.lt_iff_toNat_lt.mp h.shstrndx
  rw [UInt64.toNat_zero] at hShoff
  rw [← UInt64.toNat_inj, ← UInt64.toNat_inj, hOffset, hSize, UInt64.toNat_zero, shdrSize]
  omega

theorem headers_read {offset size : UInt64} (hOffset : offset = (ehdrOf file).eShoff)
    (hSize : size.toNat = (ehdrOf file).eShnum.toNat * shdrSize) :
    overwrite (List.replicate size.toNat 0) (slice file offset.toNat size.toNat) =
      sectionHeaders file := by
  rw [hOffset, hSize]
  apply overwrite_all
  rw [List.length_replicate, slice_length h.sectionsInFile]

end HeadersInFile

theorem sizeProduct_toNat {count size : UInt16} (h : count.toNat * size.toNat < 2 ^ 31) :
    (sizeProduct count size).toNat = count.toNat * size.toNat := by
  unfold sizeProduct
  dsimp only
  rw [if_pos h, UInt64.toNat_ofNat_of_lt']
  exact h.trans (by decide)

section Header
variable {hdr : Ehdr} (ei : ElfInternals)

theorem withHeader_kept : (ei.withHeader hdr).fd = ei.fd ∧
    (ei.withHeader hdr).symbols = ei.symbols ∧
    (ei.withHeader hdr).symbolsNum = ei.symbolsNum := by
  unfold ElfInternals.withHeader
  split <;> split <;> exact ⟨rfl, rfl, rfl⟩

theorem withHeader_sechdrs (hShoff : 0 < hdr.eShoff) :
    (ei.withHeader hdr).sechdrOffset = hdr.eShoff ∧
      (ei.withHeader hdr).sechdrNum = hdr.eShnum.toUInt64 ∧
      (ei.withHeader hdr).sechdrSize = sizeProduct hdr.eShnum hdr.eShentsize ∧
      (ei.withHeader hdr).secnametblIdx = hdr.eShstrndx.toUInt64 := by
  unfold ElfInternals.withHeader
  rw [if_pos hShoff]
  split <;> exact ⟨rfl, rfl, rfl, rfl⟩

theorem withHeader_proghdrs (hPhoff : 0 < hdr.ePhoff) :
    (ei.withHeader hdr).proghdrOffset = hdr.ePhoff ∧
      (ei.withHeader hdr).proghdrNum = hdr.ePhnum.toUInt64 ∧
      (ei.withHeader hdr).proghdrSize = sizeProduct hdr.ePhnum hdr.ePhentsize := by
  unfold ElfInternals.withHeader
  rw [if_pos hPhoff]
  exact ⟨rfl, rfl, rfl⟩

/-- The fields for section headers of the size that the loader expects. -/
theorem withHeader_sections (hShoff : 0 < hdr.eShoff)
    (hShentsize : hdr.eShentsize.toNat = shdrSize) :
    (ei.withHeader hdr).fd = ei.fd ∧ (ei.withHeader hdr).sechdrOffset = hdr.eShoff ∧
      (ei.withHeader hdr).sechdrNum.toNat = hdr.eShnum.toNat ∧
      (ei.withHeader hdr).sechdrSize.toNat = hdr.eShnum.toNat * shdrSize ∧
      (ei.withHeader hdr).secnametblIdx.toNat = hdr.eShstrndx.toNat ∧
      (ei.withHeader hdr).symbols = ei.symbols ∧
      (ei.withHeader hdr).symbolsNum = ei.symbolsNum := by
  have hSize : (sizeProduct hdr.eShnum hdr.eShentsize).toNat = hdr.eShnum.toNat * shdrSize := by
    have hShnum := hdr.eShnum.toNat_lt
    rw [sizeProduct_toNat, hShentsize]
    rw [hShentsize, shdrSize]
    omega
  obtain ⟨hFd, hSymbols, hNum⟩ : (ei.withHeader hdr).fd = ei.fd ∧ _ := withHeader_kept ei
  obtain ⟨hOffset, hCount, hSechdrs, hIdx⟩ := withHeader_sechdrs ei hShoff
  rw [hCount, hSechdrs, hIdx, UInt16.toNat_toUInt64, UInt16.toNat_toUInt64]
  exact ⟨hFd, hOffset, rfl, hSize, rfl, hSymbols, hNum⟩

end Header

theorem readSectionHeaders_sat {sys : System} (hSys : sys.Reliable) (h : HeadersInFile sys.file)
    {ei : ElfInternals} (hFd : ei.fd = sys.fd)
    (hOffset : ei.sechdrOffset = (ehdrOf sys.file).eShoff)
    (hSize : ei.sechdrSize.toNat = (ehdrOf sys.file).eShnum.toNat * shdrSize)
    (hIdx : ei.secnametblIdx.toNat = (ehdrOf sys.file).eShstrndx.toNat) {s : OsState}
    {fault : LoadFault → Prop} :
    Sat (readSectionHeaders sys ei s)
      (fun r => r.1.1 = some (sectionHeaders sys.file) ∧ ei.SameButHeaders r.1.2) fault := by
  have hFile := h.small
  have hFits := h.namesFit
  have hCount := (ehdrOf sys.file).eShnum.toNat_lt
  have hInFile := h.sectionsInFile
  have hNames := h.namesInFile
  unfold Shdr.InFile at hNames
  have hNamesIdx := UInt16.lt_iff_toNat_lt.mp h.shstrndx
  unfold readSectionHeaders
  rw [if_neg (h.headers_given hOffset hSize)]
  apply sat_bind (malloc_sat hSys (by rw [hSize, shdrSize]; omega))
  rintro _ t ⟨-, memory, rfl, -⟩
  apply sat_bind (lseek_sat hSys hFd (by rw [hOffset]; omega))
  intro offset t hSeek
  dsimp only
  rw [if_neg hSeek.1]
  apply sat_bind (read_sat hSys hFd)
  rintro _ u rfl
  rw [hSeek.2]
  dsimp only
  unfold readSectionNames
  rw [h.headers_read hOffset hSize, hIdx, h.sechdrAt_sectionHeaders hNamesIdx, pure_bind]
  apply sat_bind (lseek_sat hSys hFd (by omega))
  intro offset t hSeek
  rw [if_neg hSeek.1]
  apply sat_bind (malloc_sat hSys (by omega))
  rintro _ t ⟨-, strsectbl, rfl, -⟩
  apply sat_bind (read_sat hSys hFd)
  rintro _ u rfl
  exact ⟨rfl, _, _, _, rfl⟩

end TelnetDebug.Image
