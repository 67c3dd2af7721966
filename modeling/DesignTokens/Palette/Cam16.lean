import DesignTokens.Decimal.Binary
import DesignTokens.Palette.Ladder

/-!
The colour space of palettes: hue and chroma of the CAM16 appearance model under fixed viewing
conditions, and the tone of L*a*b*.

A colour is found from its measures by Newton's method on the lightness of the model; where that
leaves the gamut, by bisection along the edge of the gamut's slice of one luminance. All arithmetic
is that of doubles, in the order written.
-/

namespace DesignTokens.Cam16

def pi : Float := 3.141592653589793

/-- Three coordinates: a colour in linear light, or its responses. -/
structure Triple where
  x : Float
  y : Float
  z : Float

namespace Triple

def map (f : Float → Float) (t : Triple) : Triple := ⟨f t.x, f t.y, f t.z⟩

/-- The product with a matrix given by its rows. -/
def times (t m n o : Triple) : Triple :=
  let dot (r : Triple) : Float := t.x * r.x + t.y * r.y + t.z * r.z
  ⟨dot m, dot n, dot o⟩

/-- The coordinate of an axis. -/
def coord (t : Triple) : Nat → Float
  | 0 => t.x
  | 1 => t.y
  | _ => t.z

/-- The point at a fraction of the way from one point to another. -/
def between (s t : Triple) (f : Float) : Triple :=
  ⟨s.x + (t.x - s.x) * f, s.y + (t.y - s.y) * f, s.z + (t.z - s.z) * f⟩

def middle (s t : Triple) : Triple :=
  ⟨(s.x + t.x) / 2.0, (s.y + t.y) / 2.0, (s.z + t.z) / 2.0⟩

end Triple

def sign (x : Float) : Float := if x < 0.0 then -1.0 else if x == 0.0 then 0.0 else 1.0

/-! ### Channels and luminance -/

/-- A channel from 0 to 255 in linear light from 0 to 100. -/
def linear (c : Float) : Float :=
  let n := c / 255.0
  if n ≤ 0.040449936 then n / 12.92 * 100.0
  else Float.pow ((n + 0.055) / 1.055) 2.4 * 100.0

/-- A channel of linear light from 0 to 255, not rounded. -/
def encoded (v : Float) : Float :=
  let n := v / 100.0
  let d := if n ≤ 0.0031308 then n * 12.92 else 1.055 * Float.pow n (1.0 / 2.4) - 0.055
  d * 255.0

/-- A channel of linear light from 0 to 255, rounded and kept within bounds. -/
def channel (v : Float) : UInt8 := (Decimal.roundEven (encoded v)).toUInt8

def toColor (t : Triple) : Color := ⟨channel t.x, channel t.y, channel t.z⟩

def labEpsilon : Float := 216.0 / 24389.0
def labKappa : Float := 24389.0 / 27.0

def labForward (t : Float) : Float :=
  if t > labEpsilon then Float.pow t (1.0 / 3.0) else (labKappa * t + 16.0) / 116.0

def labInverse (f : Float) : Float :=
  let cube := f * f * f
  if cube > labEpsilon then cube else (116.0 * f - 16.0) / labKappa

/-- The luminance of a tone. -/
def luminance (tone : Float) : Float := 100.0 * labInverse ((tone + 16.0) / 116.0)

/-- The tone of a luminance. -/
def toneOf (y : Float) : Float := 116.0 * labForward (y / 100.0) - 16.0

/-! ### Viewing conditions -/

def backgroundRatio : Float := 0.18418651851244416
def whiteResponse : Float := 29.980997194447333
def backgroundInduction : Float := 1.0169191804458755
def chromaticInduction : Float := 1.0169191804458755
def surround : Float := 0.69
def surroundInduction : Float := 1.0
def baseExponent : Float := 1.909169568483652
def discount : Triple := ⟨1.02117770275752, 0.9863077294280124, 0.9339605082802299⟩
def adaptation : Float := 0.3884814537800353

/-- How strongly a background sets off colours. -/
def backgroundFactor : Float := Float.pow (1.64 - Float.pow 0.29 backgroundRatio) 0.73

/-! ### Measuring -/

/-- The red-green and blue-yellow components of adapted responses. -/
def opponents (t : Triple) : Float × Float :=
  ((11.0 * t.x - 12.0 * t.y + t.z) / 11.0, (t.x + t.y - 2.0 * t.z) / 9.0)

/-- The compressed response to adapted light. -/
def compress (d f : Float) : Float := sign d * 400.0 * f / (f + 27.13)

/-- The change of eccentricity with a hue in radians. -/
def eccentricity (hue : Float) : Float := 0.25 * (Float.cos (hue + 2.0) + 3.8)

/-- Hue, chroma and tone of a colour. -/
def measure (c : Color) : Float × Float × Float :=
  let light : Triple := ⟨linear c.red.toNat.toFloat, linear c.green.toNat.toFloat,
    linear c.blue.toNat.toFloat⟩
  let xyz := light.times ⟨0.41233895, 0.35762064, 0.18051042⟩ ⟨0.2126, 0.7152, 0.0722⟩
    ⟨0.01932141, 0.11916382, 0.95034478⟩
  let cone := xyz.times ⟨0.401288, 0.650173, -0.051461⟩ ⟨-0.250268, 1.204414, 0.045854⟩
    ⟨-0.002079, 0.048952, 0.953127⟩
  let adapted (d c : Float) : Float :=
    let v := d * c
    compress v (Float.pow (adaptation * v.abs / 100.0) 0.42)
  let a : Triple :=
    ⟨adapted discount.x cone.x, adapted discount.y cone.y, adapted discount.z cone.z⟩
  let (p, q) := opponents a
  let u := (20.0 * a.x + 20.0 * a.y + 21.0 * a.z) / 20.0
  let p2 := (40.0 * a.x + 20.0 * a.y + a.z) / 20.0
  let hue := Decimal.floorMod (Float.atan2 q p * 180.0 / pi) 360.0
  let lightness :=
    100.0 * Float.pow (p2 * backgroundInduction / whiteResponse) (surround * baseExponent)
  let turned := if hue < 20.14 then hue + 360.0 else hue
  let p1 := 50000.0 / 13.0 * eccentricity (turned * pi / 180.0) * surroundInduction *
    chromaticInduction
  let t := p1 * Float.sqrt (p * p + q * q) / (u + 0.305)
  let alpha := Float.pow t 0.9 * backgroundFactor
  (hue, alpha * Float.sqrt (lightness / 100.0), toneOf xyz.y)

/-! ### Finding a colour by lightness -/

/-- The adapted light of a compressed response. -/
def expand (a : Float) : Float :=
  let base := 27.13 * a.abs / (400.0 - a.abs)
  sign a * Float.pow (if base > 0.0 then base else 0.0) (1.0 / 0.42)

/-- The linear light of adapted light. -/
def lightOf (t : Triple) : Triple :=
  t.times ⟨1373.2198709594231, -1100.4251190754821, -7.278681089101213⟩
    ⟨-271.815969077903, 559.6580465940733, -32.46047482791194⟩
    ⟨1.9622899599665666, -57.173814538844006, 308.7233197812385⟩

/-- Improves a lightness up to as many times as given, and yields a colour of the luminance `y`
unless it leaves the gamut. -/
def byLightness? (hue chroma y : Float) : (rounds : Nat) → (lightness : Float) → Option Color
  | rounds, lightness =>
    let ti := 1.0 / backgroundFactor
    let p1 := eccentricity hue * (50000.0 / 13.0) * surroundInduction * chromaticInduction
    let n := lightness / 100.0
    let alpha := if chroma == 0.0 || lightness == 0.0 then 0.0 else chroma / Float.sqrt n
    let t := Float.pow (alpha * ti) (1.0 / 0.9)
    let ac := whiteResponse * Float.pow n (1.0 / surround / baseExponent)
    let p2 := ac / backgroundInduction
    let hueCos := Float.cos hue
    let hueSin := Float.sin hue
    let gamma := 23.0 * (p2 + 0.305) * t / (23.0 * p1 + 11.0 * t * hueCos + 108.0 * t * hueSin)
    let a := gamma * hueCos
    let b := gamma * hueSin
    let responses : Triple := ⟨(460.0 * p2 + 451.0 * a + 288.0 * b) / 1403.0,
      (460.0 * p2 - 891.0 * a - 261.0 * b) / 1403.0,
      (460.0 * p2 - 220.0 * a - 6300.0 * b) / 1403.0⟩
    let light := lightOf (responses.map expand)
    if light.x < 0.0 || light.y < 0.0 || light.z < 0.0 then none
    else
      let f := 0.2126 * light.x + 0.7152 * light.y + 0.0722 * light.z
      if f ≤ 0.0 then none
      else
        let done := if light.x > 100.01 || light.y > 100.01 || light.z > 100.01 then none
          else some (toColor light)
        match rounds with
        | 0 => done
        | rounds + 1 =>
          if (f - y).abs < 0.002 then done
          else byLightness? hue chroma y rounds (lightness - (f - y) * lightness / (2.0 * f))

/-! ### Finding a colour on the edge of the gamut -/

/-- The hue of linear light, in radians. -/
def hueOf (t : Triple) : Float :=
  let v := t.times ⟨0.001200833568784504, 0.002389694492170889, 0.0002795742885861124⟩
    ⟨0.0005891086651375999, 0.0029785502573438758, 0.0003270666104008398⟩
    ⟨0.00010146692491640572, 0.0005364214359186694, 0.0032979401770712076⟩
  let (p, q) := opponents (v.map fun d => compress d (Float.pow d.abs 0.42))
  Float.atan2 q p

def sanitize (angle : Float) : Float := Decimal.floorMod (angle + pi * 8.0) (pi * 2.0)

/-- The second angle comes before the third, counted from the first. -/
def inOrder (a b c : Float) : Bool := sanitize (b - a) < sanitize (c - a)

/-- The point of luminance `y` on one of the twelve edges of the cube of linear light. -/
def vertex? (y : Float) (n : Nat) : Option Triple :=
  let a := if n % 4 ≤ 1 then 0.0 else 100.0
  let b := if n % 2 = 0 then 0.0 else 100.0
  let inside (v : Float) : Bool := 0.0 ≤ v && v ≤ 100.0
  if n < 4 then
    let r := (y - a * 0.7152 - b * 0.0722) / 0.2126
    if inside r then some ⟨r, a, b⟩ else none
  else if n < 8 then
    let g := (y - b * 0.2126 - a * 0.0722) / 0.7152
    if inside g then some ⟨b, g, a⟩ else none
  else
    let z := (y - a * 0.2126 - b * 0.7152) / 0.0722
    if inside z then some ⟨a, b, z⟩ else none

/-- Two points on the edge of a slice with their hues, and whether the slice is still whole. -/
structure Segment where
  left : Triple
  right : Triple
  leftHue : Float
  rightHue : Float
  uncut : Bool

/-- Cuts a segment at a further vertex, keeping the part that holds the hue. -/
def Segment.cut (s : Segment) (hue : Float) (m : Triple) : Segment :=
  let h := hueOf m
  if s.uncut || inOrder s.leftHue h s.rightHue then
    if inOrder s.leftHue hue h then { s with right := m, rightHue := h, uncut := false }
    else { s with left := m, leftHue := h, uncut := false }
  else s

/-- The part of the slice's edge, between two vertices, that holds a hue. -/
def segment (y hue : Float) : Segment :=
  let start := Segment.mk ⟨-1.0, -1.0, -1.0⟩ ⟨-1.0, -1.0, -1.0⟩ 0.0 0.0 true
  match (List.range 12).filterMap (vertex? y) with
  | [] => start
  | m :: rest =>
    let h := hueOf m
    rest.foldl (fun s m => s.cut hue m) ⟨m, m, h, h, true⟩

/-- Halves the planes of one channel that still part a segment, up to as many times as given. -/
def bisect (hue : Float) (axis : Nat) : (rounds : Nat) → (low high : Float) → Segment → Segment
  | 0, _, _, s => s
  | rounds + 1, low, high, s =>
    if (high - low).abs ≤ 1.0 then s
    else
      let plane := ((low + high) / 2.0).floor
      let f := (linear (plane + 0.5) - s.left.coord axis) / (s.right.coord axis - s.left.coord axis)
      let m := s.left.between s.right f
      let h := hueOf m
      if inOrder s.leftHue hue h then bisect hue axis rounds low plane { s with right := m }
      else bisect hue axis rounds plane high { s with left := m, leftHue := h }

/-- Narrows a segment along one axis. -/
def narrow (hue : Float) (s : Segment) (axis : Nat) : Segment :=
  let left := s.left.coord axis
  let right := s.right.coord axis
  let below (x : Float) : Float := (x - 0.5).floor
  let above (x : Float) : Float := (x - 0.5).ceil
  if left == right then s
  else if left < right then
    bisect hue axis 8 (below (encoded left)) (above (encoded right)) s
  else bisect hue axis 8 (above (encoded left)) (below (encoded right)) s

/-- The colour of a hue and luminance with the highest chroma. -/
def edge (y hue : Float) : Triple :=
  let s := [0, 1, 2].foldl (narrow hue) (segment y hue)
  s.left.middle s.right

/-- The colour nearest to the given hue, chroma and tone. -/
def solve (hue chroma tone : Float) : Color :=
  let y := luminance tone
  if chroma < 0.0001 || tone < 0.0001 || tone > 99.9999 then
    let grey := channel y
    ⟨grey, grey, grey⟩
  else
    let radians := Decimal.floorMod hue 360.0 / 180.0 * pi
    match byLightness? radians chroma y 4 (Float.sqrt y * 11.0) with
    | some c => c
    | none => toColor (edge y radians)

/-- The colour nearest to measures that need not be finite. Without chroma, or beyond black and
white, only the tone counts; what is no number leads to no channel. -/
def solveAny (hue chroma tone : Float) : Except Fault Color :=
  if tone.isNaN then .error .notNumber
  else if chroma < 0.0001 || tone < 0.0001 || tone > 99.9999 then
    if isFinite (luminance tone) then .ok (solve hue chroma tone) else .error .overflow
  else if isFinite hue && isFinite chroma && isFinite tone then .ok (solve hue chroma tone)
  else .error .notNumber

/-- The colour space of palettes. -/
def space : ColorSpace Float := ⟨measure, solve⟩

end DesignTokens.Cam16
