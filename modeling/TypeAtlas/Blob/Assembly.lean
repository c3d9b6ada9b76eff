import TypeAtlas.Bytes
import TypeAtlas.Text.Hexadecimal

/-!
# Assembly source

A source text that embeds a byte string in a read-only section between two labels, twelve
bytes to a line.
-/

namespace TypeAtlas.Assembly

def bytesPerLine : Nat := 12

/-- What stands in front of the bytes: the section of each platform, and the first label. -/
def opening : String :=
  "#ifdef __APPLE__\n    .section __TEXT,__const\n" ++
  "#elif defined(_WIN32)\n    .section .rdata\n" ++
  "#else\n    .section .rodata\n#endif\n\n" ++
  "    .global _reflection_dat_start\n" ++
  "    .global _reflection_dat_end\n" ++
  "_reflection_dat_start:\n"

/-- What stands behind the bytes: the last label, and a mark that the stack holds no code. -/
def closing : String :=
  "\n_reflection_dat_end:\n" ++
  "\n#ifdef __GNUC__\n#ifndef __APPLE__\n" ++
  "    .section .note.GNU-stack,\"\",@progbits\n" ++
  "#endif\n#endif\n"

/-- Cut a list into pieces of `bytesPerLine`, the last of which may be shorter. -/
def rows (bytes : Bytes) : List Bytes :=
  match bytes with
  | [] => []
  | byte :: rest =>
    (byte :: rest.take (bytesPerLine - 1)) :: rows (rest.drop (bytesPerLine - 1))
termination_by bytes.length
decreasing_by simp only [List.length_drop, List.length_cons]; omega

def operand (byte : UInt8) : String := "0x" ++ String.ofList (Text.writeHexByte byte)

/-- The directive of one row; the line feed stands in front. -/
def directive (row : Bytes) : String :=
  "\n    .byte " ++ ", ".intercalate (row.map operand)

def render (bytes : Bytes) : String :=
  opening ++ String.join ((rows bytes).map directive) ++ closing

theorem flatten_rows (bytes : Bytes) : (rows bytes).flatten = bytes := by
  induction bytes using rows.induct with
  | case1 => simp [rows]
  | case2 byte rest ih => simp [rows, ih]

end TypeAtlas.Assembly
