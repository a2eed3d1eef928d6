import EarlyBoot.SymbolName

/-!
# Image variables

The sixteen places of the final image that early code has to know: the roots and
ends of the page tables, then the boundaries of the sections.  Each has a name in
the final image and an early name.
-/

namespace EarlyBoot

/-- A place of the final image. -/
inductive ImageVar where
  | initIdmapPgDir
  | initIdmapPgEnd
  | initPgDir
  | initPgEnd
  | swapperPgDir
  | text
  | stext
  | etext
  | startRodata
  | inittextBegin
  | inittextEnd
  | initdataBegin
  | initdataEnd
  | data
  | bssStart
  | imageEnd
  deriving DecidableEq, Repr

namespace ImageVar

/-- All places, the page tables first. -/
def all : List ImageVar :=
  [.initIdmapPgDir, .initIdmapPgEnd, .initPgDir, .initPgEnd, .swapperPgDir,
    .text, .stext, .etext, .startRodata, .inittextBegin, .inittextEnd,
    .initdataBegin, .initdataEnd, .data, .bssStart, .imageEnd]

/-- The name of the place in the final image. -/
def finalName : ImageVar → SymbolName
  | .initIdmapPgDir => ⟨"init_idmap_pg_dir"⟩
  | .initIdmapPgEnd => ⟨"init_idmap_pg_end"⟩
  | .initPgDir => ⟨"init_pg_dir"⟩
  | .initPgEnd => ⟨"init_pg_end"⟩
  | .swapperPgDir => ⟨"swapper_pg_dir"⟩
  | .text => ⟨"_text"⟩
  | .stext => ⟨"_stext"⟩
  | .etext => ⟨"_etext"⟩
  | .startRodata => ⟨"__start_rodata"⟩
  | .inittextBegin => ⟨"__inittext_begin"⟩
  | .inittextEnd => ⟨"__inittext_end"⟩
  | .initdataBegin => ⟨"__initdata_begin"⟩
  | .initdataEnd => ⟨"__initdata_end"⟩
  | .data => ⟨"_data"⟩
  | .bssStart => ⟨"__bss_start"⟩
  | .imageEnd => ⟨"_end"⟩

/-- The name by which early code refers to the place. -/
def earlyName (place : ImageVar) : SymbolName :=
  place.finalName.early

theorem mem_all (place : ImageVar) : place ∈ all := by
  cases place <;> decide

end ImageVar
end EarlyBoot
