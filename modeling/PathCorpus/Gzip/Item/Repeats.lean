import PathCorpus.Gzip.Item.Basic
import Std.Data.HashMap

/-!
# Repeats in a text

How a text is cut into items. At each place the longest earlier occurrence of what follows is
looked for, among those that begin with the same four bytes, the latest first. What is repeated
for less than four bytes is written byte by byte.

Far from the end of the text the place after a stretch is looked at before the stretch is written:
if what is repeated there can be followed back over the whole stretch but for one byte at most, the
earlier stretch gives way to the later one.
-/

namespace PathCorpus.Gzip

/-! ## §1: Bounds -/

namespace Repeats

/-- The shortest repeat that is copied. -/
def shortest : Nat := 4

/-- The longest repeat that is copied. -/
def longest : Nat := 258

/-- A repeat of this length is taken without looking for a longer one. -/
def longEnough : Nat := 128

/-- How many earlier occurrences are looked at. -/
def tries : Nat := 128

/-- A place with fewer bytes after it is near the end of the text. -/
def margin : Nat := 262

/-- How far back a repeat may be looked for. -/
def reach : Nat := 32768 - margin

end Repeats

/-! ## §2: Where strings have been seen -/

/-- For each string of four bytes that has been noted, the latest place where it stands, and for
each place that has been noted the one before it with the same string. The first place of a text
is never looked at again, so 0 stands for no place. -/
structure Sightings where
  latest : Std.HashMap Nat Nat
  before : Array Nat

namespace Sightings

/-- Nothing is noted yet. -/
def empty (size : Nat) : Sightings := { latest := ∅, before := .replicate size 0 }

/-- Four bytes as one number. -/
def key (text : Array UInt8) (place : Nat) : Nat :=
  [0, 1, 2, 3].foldl (fun k i => 256 * k + (text.getD (place + i) 0).toNat) 0

/-- The latest place with the same string as a place. -/
def latestLike (x : Sightings) (text : Array UInt8) (place : Nat) : Nat :=
  x.latest.getD (key text place) 0

/-- The sightings with a place noted, unless it is the latest already. -/
def note (x : Sightings) (text : Array UInt8) (place : Nat) : Sightings :=
  let previous := x.latestLike text place
  if previous = place then x
  else
    { latest := x.latest.insert (key text place) place
      before := x.before.setIfInBounds place previous }

/-- The sightings with the places of a range noted, from its first one to the one before its end. -/
def noteRange (x : Sightings) (text : Array UInt8) (first stop : Nat) : Sightings :=
  (List.range' first (stop - first)).foldl (fun x place => x.note text place) x

end Sightings

/-! ## §3: The longest repeat -/

/-- For how many bytes, at most `n`, the text goes on alike after two places. After its end a text
counts as zeros. -/
def alike (text : Array UInt8) : (n a b : Nat) → Nat
  | 0, _, _ => 0
  | n + 1, a, b =>
    if text.getD a 0 = text.getD b 0 then alike text n (a + 1) (b + 1) + 1 else 0

/-- A stretch of a text that is also found earlier, or a single byte, for which the source means
nothing. -/
structure Stretch where
  start : Nat
  source : Nat
  length : Nat
  /-- The first place whose string is not noted. -/
  unseen : Nat
  deriving DecidableEq, Repr

namespace Stretch

/-- A single byte. -/
def single (start : Nat) : Stretch := { start, source := 0, length := 1, unseen := start }

/-- The best of a stretch and those that start at the same place and repeat what stands at a
candidate and the candidates before it, when `ahead` bytes of the text are left. -/
def improve (x : Sightings) (text : Array UInt8) (ahead : Nat) :
    (tries candidate : Nat) → Stretch → Stretch
  | 0, _, best => best
  | tries + 1, candidate, best =>
    if best.start ≤ candidate then best
    else
      let length := alike text Repeats.longest candidate best.start
      let next := x.before.getD candidate 0
      let goOn (best : Stretch) : Stretch :=
        if next ≤ best.start - Repeats.reach then best else improve x text ahead tries next best
      if length ≤ best.length then goOn best
      else
        let better := { best with source := candidate, length }
        if ahead < length then { better with length := ahead }
        else if Repeats.longEnough ≤ length then better
        else goOn better

/-- The stretch at a place, which is noted. -/
def find (x : Sightings) (text : Array UInt8) (ahead start : Nat) : Stretch × Sightings :=
  if ahead < Repeats.shortest then (single start, x)
  else
    let candidate := x.latestLike text start
    let x := x.note text start
    if candidate = 0 ∨ start ≤ candidate ∨ Repeats.reach < start - candidate then
      (single start, x)
    else
      let best := improve x text ahead Repeats.tries candidate
        { start, source := 0, length := 2, unseen := start }
      if best.length < Repeats.shortest then (single start, x) else (best, x)

/-- The sightings with the places of a stretch noted that are not noted yet. Near the end of the
text nothing is noted any more, and of a stretch longer than 256 bytes only the last place. -/
def noteIn (s : Stretch) (x : Sightings) (text : Array UInt8) (ahead : Nat) : Sightings :=
  if ahead ≤ s.length + Repeats.shortest ∨ s.length < Repeats.shortest then x
  else
    let stop := s.start + s.length
    x.noteRange text (if s.length ≤ 256 then max (s.start + 1) s.unseen else stop - 1) stop

/-- The items that a stretch is written as. -/
def items (s : Stretch) (text : Array UInt8) : List Item :=
  if s.length < Repeats.shortest then
    (List.range' s.start s.length).map fun place => .byte (text.getD place 0)
  else [.copy s.length (s.start - s.source)]

/-! ## §4: Giving way -/

/-- Two neighbouring stretches with the border between them moved back as far as the later one
repeats there too, in at most `n` steps. -/
def moveBorder (text : Array UInt8) (lowest : Nat) :
    (n : Nat) → Stretch × Stretch → Stretch × Stretch
  | 0, p => p
  | n + 1, (s, t) =>
    if text.getD (t.source - 1) 0 = text.getD (t.start - 1) 0 ∧ 1 ≤ s.length
        ∧ lowest < t.start ∧ t.length < 256 ∧ 1 < t.source then
      moveBorder text lowest n
        ({ s with length := s.length - 1 },
         { t with start := t.start - 1, source := t.source - 1, length := t.length + 1 })
    else (s, t)

/-- The two stretches after the earlier one has given way, if it does: only where it goes but for
one byte. The place where the later one used to start is noted already. -/
def giveWay (text : Array UInt8) (s t : Stretch) : Stretch × Stretch :=
  if s.length ≤ 1 ∨ t.source + 1 < s.length ∨ t.start + 1 < s.length
      ∨ text.getD (t.source + 1 - s.length) 0 ≠ text.getD (t.start + 1 - s.length) 0 then (s, t)
  else
    let (s', t') := moveBorder text (t.start - Repeats.reach) s.length (s, t)
    if s'.length < s.length ∧ s'.length ≤ 1 then (s', { t' with unseen := t'.unseen + 1 })
    else (s, t)

end Stretch

/-! ## §5: A whole text -/

/-- The items of a text from a place on, after the items that are found already, in at most `n`
stretches. The stretch at the place may be known beforehand. -/
def itemsFrom (text : Array UInt8) :
    (n place : Nat) → Option Stretch → Sightings → Array Item → Array Item
  | 0, _, _, _, items => items
  | n + 1, place, known?, x, items =>
    let ahead := text.size - place
    if ahead = 0 then items
    else
      let (s, x) := match known? with
        | some s => if ahead < Repeats.margin then Stretch.find x text ahead place else (s, x)
        | none => Stretch.find x text ahead place
      let x := s.noteIn x text ahead
      if Repeats.margin < ahead then
        let (t, x) := Stretch.find x text ahead (s.start + s.length)
        let (s, t) := if t.length < Repeats.shortest then (s, t) else Stretch.giveWay text s t
        itemsFrom text n (place + s.length) (some t) x (items ++ s.items text)
      else itemsFrom text n (place + s.length) none x (items ++ s.items text)

/-- The items of a text. No stretch but one that gave way is empty, and the one after it is not. -/
def itemsOf (text : Array UInt8) : Array Item :=
  itemsFrom text (2 * text.size) 0 none (.empty text.size) #[]

end PathCorpus.Gzip
