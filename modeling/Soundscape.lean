import Soundscape.Clip
import Soundscape.CommandLine.Arguments
import Soundscape.CommandLine.Report
import Soundscape.CommandLine.Run
import Soundscape.Ease
import Soundscape.Fate
import Soundscape.Files
import Soundscape.Format.Data
import Soundscape.Format.Json
import Soundscape.Format.Mapping
import Soundscape.Format.Scalar
import Soundscape.Format.Yaml.Block
import Soundscape.Format.Yaml.Character
import Soundscape.Format.Yaml.Gap
import Soundscape.Format.Yaml.Layout
import Soundscape.Format.Yaml.Node
import Soundscape.Format.Yaml.Plain
import Soundscape.Format.Yaml.Quoted
import Soundscape.Format.Yaml.Spot
import Soundscape.Format.Yaml.Tag
import Soundscape.Format.Yaml.Token
import Soundscape.Format.Yaml.Writer
import Soundscape.Interpolation
import Soundscape.Interpolation.Levels
import Soundscape.Interpolation.Playhead
import Soundscape.Main
import Soundscape.Number.Binary64
import Soundscape.Number.Numeral
import Soundscape.Number.Rounded
import Soundscape.Number.Scalar
import Soundscape.Number.Shortest
import Soundscape.Number.Style
import Soundscape.Playback.Backend
import Soundscape.Playback.Gain
import Soundscape.Playback.Placement
import Soundscape.Playback.Player
import Soundscape.Playback.Recording
import Soundscape.Playback.Scheduler
import Soundscape.Playback.Voice
import Soundscape.Playback.Wav
import Soundscape.Playback.WavHeader
import Soundscape.Proofs.Clip.Image
import Soundscape.Proofs.Ease.Climb
import Soundscape.Proofs.Ease.Reflection
import Soundscape.Proofs.Interpolation.Elapsed
import Soundscape.Proofs.Interpolation.Ending
import Soundscape.Proofs.Interpolation.Goto
import Soundscape.Proofs.Interpolation.TwoLevels
import Soundscape.Proofs.Number.Difference
import Soundscape.Proofs.Number.Rounding
import Soundscape.Proofs.Number.Width
import Soundscape.Proofs.Player.Bounds
import Soundscape.Proofs.Player.Checked
import Soundscape.Proofs.Player.Drift
import Soundscape.Proofs.Player.Lifecycle
import Soundscape.Proofs.Random.Drawn
import Soundscape.Proofs.Recording.DryRun
import Soundscape.Proofs.Recording.Log
import Soundscape.Proofs.Scheduler.Drawable
import Soundscape.Proofs.Scheduler.Fates
import Soundscape.Proofs.Scheduler.Halves
import Soundscape.Proofs.Scheduler.Handles
import Soundscape.Proofs.Scheduler.Reset
import Soundscape.Proofs.Script.Axes
import Soundscape.Proofs.Script.Comments
import Soundscape.Proofs.Script.Curves
import Soundscape.Proofs.Script.Dropped
import Soundscape.Proofs.Script.Flattening
import Soundscape.Proofs.Script.Headers
import Soundscape.Proofs.Script.Ignored
import Soundscape.Proofs.Script.Joined
import Soundscape.Proofs.Script.Layout
import Soundscape.Proofs.Script.Lexemes
import Soundscape.Proofs.Script.Measured
import Soundscape.Proofs.Script.Nested
import Soundscape.Proofs.Script.Places
import Soundscape.Proofs.Script.Printed
import Soundscape.Proofs.Script.Ranges
import Soundscape.Proofs.Script.Sampled
import Soundscape.Proofs.Script.Skipped
import Soundscape.Proofs.Script.Spans
import Soundscape.Proofs.Script.Written
import Soundscape.Proofs.Text.Parts
import Soundscape.Proofs.Session.Driving
import Soundscape.Proofs.Voice.Opening
import Soundscape.Proofs.Voice.Punctual
import Soundscape.Quantity
import Soundscape.Random.ChaCha
import Soundscape.Random.Source
import Soundscape.Random.Uniform
import Soundscape.Script.Diagnostic
import Soundscape.Script.Document
import Soundscape.Script.Line
import Soundscape.Script.Property
import Soundscape.Script.Reader
import Soundscape.Script.Statement
import Soundscape.Script.Token
import Soundscape.Script.Tree
import Soundscape.Session
import Soundscape.Session.Config
import Soundscape.Text.Alphabetic
import Soundscape.Text.Blank
