import Rubato.Text.Letter
import Rubato.Text.Cased
import Rubato.Text.Lowercase
import Rubato.Decimal.Numeral
import Rubato.Remark
import Rubato.Harmony
import Rubato.Ornament
import Rubato.Grace
import Rubato.Markup.Attribute
import Rubato.Markup.Event
import Rubato.Markup.Trace
import Rubato.Failure
import Rubato.Markup.Element
import Rubato.Score
import Rubato.Score.Reading
import Rubato.Tempo.Cue
import Rubato.Tempo.Map
import Rubato.Tempo.Scan
import Rubato.Performance.Clock
import Rubato.Performance.Numbering
import Rubato.Progression
import Rubato.Tempo.Attribute
import Rubato.Json
import Rubato.Options
import Rubato.Timeline
import Rubato.Json.Written
import Rubato.Timeline.Json
import Rubato.Proofs.Rational
import Rubato.Proofs.Decimal.Double
import Rubato.Proofs.Decimal.Shortest
import Rubato.Proofs.Decimal.Written
import Rubato.Proofs.Score.WellFormed
import Rubato.Proofs.Tempo.Written
import Rubato.Proofs.Tempo.Rewriting
import Rubato.Proofs.Tempo.Cue
import Rubato.Proofs.Tempo.Values
import Rubato.Proofs.Tempo.Position
import Rubato.Proofs.Tempo.Openings
import Rubato.Proofs.Tempo.RampStart
import Rubato.Proofs.Tempo.Ramp
import Rubato.Proofs.Tempo.Stepping
import Rubato.Proofs.Tempo.Uniform
import Rubato.Proofs.Ornament
import Rubato.Proofs.Performance.Segments
import Rubato.Proofs.Performance.Reached
import Rubato.Proofs.Performance.Following
import Rubato.Proofs.Performance.Steady
import Rubato.Proofs.Performance.Agreement
import Rubato.Proofs.Performance.Times
import Rubato.Proofs.Performance.Numbering
import Rubato.Proofs.Performance.Hands
import Rubato.Proofs.Performance.Order
import Rubato.Proofs.Performance.Parts
import Rubato.Proofs.Performance.Music
import Rubato.Proofs.Performance.Ties
import Rubato.Proofs.Performance.Begun
import Rubato.Proofs.Markup.Written
import Rubato.Proofs.Markup.Tag
import Rubato.Proofs.Markup.Piece
import Rubato.Proofs.Markup.Reader
import Rubato.Proofs.Markup.Element
import Rubato.Proofs.Score.Likeness
import Rubato.Proofs.Score.Retimed
import Rubato.Proofs.Score.PassedOver
import Rubato.Proofs.Tempo.Forced
import Rubato.Proofs.Progression.Grouping
import Rubato.Proofs.Progression.Onsets
import Rubato.Proofs.Progression.Overlay
import Rubato.Proofs.Progression.Positions
import Rubato.Proofs.Progression.Symbols
import Rubato.Proofs.Tiling
import Rubato.Proofs.Grace
import Rubato.Proofs.Figure
import Rubato.Proofs.Performance.Layout
import Rubato.Proofs.Performance.Elapsed
import Rubato.Proofs.Performance.Conservation
import Rubato.Proofs.Performance.Moments
import Rubato.Proofs.Performance.Standing
import Rubato.Proofs.Performance.Graces
import Rubato.Proofs.Performance.Inert
import Rubato.Proofs.Performance.Scored
import Rubato.Proofs.Performance.Uniform
import Rubato.Proofs.Guarded.Tempo
import Rubato.Proofs.Guarded.Performance
import Rubato.Proofs.Guarded.Run
import Rubato.Proofs.Guarded.Score
import Rubato.Proofs.Performance.Chains
import Rubato.Proofs.Tempo.Bounds
import Rubato.Proofs.Tempo.Marks
import Rubato.Proofs.Performance.Joining
import Rubato.Proofs.Guarded.Rewriting
import Rubato.Proofs.Tempo.Grammar
import Rubato.Proofs.Tempo.Restated
import Rubato.Proofs.Performance.Restated
import Rubato.Proofs.Markup.Nesting
import Rubato.Proofs.Markup.Building
import Rubato.Proofs.Markup.Spelling
import Rubato.Proofs.Markup.SpelledMarkup
import Rubato.Proofs.Markup.Telling
import Rubato.Proofs.Markup.CharacterData
import Rubato.Proofs.Markup.Rereading
import Rubato.Proofs.Markup.Retexting
import Rubato.Proofs.Markup.Comment
import Rubato.Proofs.Score.Commented
import Rubato.Proofs.Markup.Places
import Rubato.Proofs.Performance.TieTargets
