import GlyphRules.Font.Thickness
import GlyphRules.Main
import GlyphRules.Proofs.Book.Closure
import GlyphRules.Proofs.Book.Combine
import GlyphRules.Proofs.Command.Classes
import GlyphRules.Proofs.Scalar
import GlyphRules.Proofs.Shaping.Assignment
import GlyphRules.Proofs.Shaping.Circles
import GlyphRules.Proofs.Shaping.Prohibition
import GlyphRules.Proofs.Shaping.Transparent
import GlyphRules.Proofs.Book.EmptyPositions
import GlyphRules.Proofs.Feature.Scope
import GlyphRules.Proofs.Feature.Blocks
import GlyphRules.Proofs.Shaping.Deletion
import GlyphRules.Proofs.Shaping.Hanging
import GlyphRules.Proofs.Shaping.Jamo
import GlyphRules.Proofs.Book.Wildcards
import GlyphRules.Proofs.Shaping.Selection
import GlyphRules.Proofs.Build.Encoding
import GlyphRules.Proofs.Feature.Expansion
import GlyphRules.Proofs.Layout.Anchors
import GlyphRules.Proofs.Layout.Rebuilding
import GlyphRules.Proofs.Layout.Contexts
import GlyphRules.Proofs.Layout.Extensions
import GlyphRules.Proofs.Layout.Classes
import GlyphRules.Proofs.Optimise.Singles
import GlyphRules.Proofs.Optimise.LongSlots
import GlyphRules.Proofs.Optimise.MergedCalls
import GlyphRules.Proofs.Markup.BookTrip
import GlyphRules.Proofs.Shaping.BrokenSyllables
