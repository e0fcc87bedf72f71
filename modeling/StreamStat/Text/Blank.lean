/-!
# Blank characters

Which characters may stand around a numeral. Beside the blanks of every script there
are four separator controls that only some readers skip.
-/

namespace StreamStat.Text

/-- The separator controls: file, group, record and unit. -/
def isSeparator (c : Char) : Bool := 0x1c ≤ c.toNat && c.toNat ≤ 0x1f

/-- The blanks that are no separator control. -/
def isBlank (c : Char) : Bool :=
  let n := c.toNat
  (0x09 ≤ n && n ≤ 0x0d) || n == 0x20 || n == 0x85 || n == 0xa0 || n == 0x1680 ||
    (0x2000 ≤ n && n ≤ 0x200a) || n == 0x2028 || n == 0x2029 || n == 0x202f || n == 0x205f ||
    n == 0x3000

/-- The text without the characters at either end that `skip` accepts. -/
def trimmed (skip : Char → Bool) (s : List Char) : List Char :=
  ((s.dropWhile skip).reverse.dropWhile skip).reverse

end StreamStat.Text
