import Soundscape.Format.Json
import Soundscape.Format.Yaml.Writer
import Soundscape.Playback.Recording
import Soundscape.Script.Statement

/-!
# Statements and calls as data

What the command line writes: the statements of a script with all their fields, and the calls that
a dry run makes.
-/

namespace Soundscape

namespace Report

def number (x : Float) : Data := .number (.ofFloat x)

/-- A quantity: nothing, a number, or the two ends of a range. -/
def quantity : Quantity Float → Data
  | .unset => .null
  | .fixed v => number v
  | .range low high => .list [number low, number high]

def interpolation (i : Interpolation Float) : Data :=
  .record [("kind", .text i.motion.name), ("min", quantity i.low), ("max", quantity i.high),
    ("duration", quantity i.duration), ("ease_name", .text i.easeName),
    ("ease", .text i.ease.name), ("repeat_count", .nat i.repeats), ("forever", .bool i.forever)]

def movement (m : Movement Float) : Data :=
  match m with
  | .still => .record [("mode", .text "none")]
  | .walk x z speed =>
    .record [("mode", .text "walk"), ("x", quantity x), ("z", quantity z),
      ("speed", quantity speed)]
  | .fly x y z speed =>
    .record [("mode", .text "fly"), ("x", quantity x), ("y", quantity y), ("z", quantity z),
      ("speed", quantity speed)]
  | .fixed x y z =>
    .record [("mode", .text "fixed"), ("x", quantity x), ("y", quantity y), ("z", quantity z)]

def visual : Visual → Data
  | .tag name => .tagged "tag" (.text name)
  | .object path => .tagged "object" (.text path)

/-- A field that is left out where there is nothing to write. -/
def optional (name : String) (i : Option (Interpolation Float)) : List (String × Data) :=
  (i.map fun i => (name, interpolation i)).toList

/-- A statement.  Visuals and interpolations are left out where there are none. -/
def statement (s : Statement Float) : Data :=
  .record (
    [("kind", .text s.kind.name), ("clip", .text s.clip), ("count", .nat s.count),
      ("starts_at", quantity s.startsAt), ("duration", quantity s.duration),
      ("every", quantity s.every), ("volume", quantity s.volume), ("pitch", quantity s.pitch),
      ("fade_in", quantity s.fadeIn), ("fade_out", quantity s.fadeOut),
      ("overlap", .bool s.overlap), ("movement", movement s.movement)]
    ++ (if s.visuals.isEmpty then [] else [("visuals", .list (s.visuals.map visual))])
    ++ optional "volume_interpolation" s.volumeInterpolation
    ++ optional "pitch_interpolation" s.pitchInterpolation
    ++ [("line", .nat s.line)])

def statements (ss : List (Statement Float)) : Data := .list (ss.map statement)

def point (p : Point Float) : Data := .list [number p.x, number p.y, number p.z]

def placement (p : Placement Float) : Data :=
  .record [("mode", .text p.mode.name), ("min", point p.low), ("max", point p.high),
    ("frequency", number p.frequency), ("visuals", .list (p.visuals.map visual))]

/-- A call: its name, its handle and what else it has. -/
def call : Call Float → Data
  | .acquire h clip => named "acquire" h [("clip", .text clip)]
  | .loadClip h clip => named "load_clip" h [("clip", .text clip)]
  | .setVolume h v => named "set_volume" h [("volume", number v)]
  | .setPitch h v => named "set_pitch" h [("pitch", number v)]
  | .play h looped => named "play" h [("looped", .bool looped)]
  | .stop h => named "stop" h []
  | .release h => named "release" h []
  | .place h p => named "place" h [("spatial", placement p)]
where
  /-- A call with its name and its handle in front. -/
  named (name : String) (h : Handle) (more : List (String × Data)) : Data :=
    .record (("call", .text name) :: ("handle", .nat h.number) :: more)

end Report

end Soundscape
