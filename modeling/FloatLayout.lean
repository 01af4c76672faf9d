import FloatLayout.Logical.Text
import FloatLayout.Proofs.AreaDirection
import FloatLayout.Proofs.BandDescent
import FloatLayout.Proofs.CollapsedRegion
import FloatLayout.Proofs.Conversion
import FloatLayout.Proofs.EnclosedArea
import FloatLayout.Proofs.ExactEdges
import FloatLayout.Proofs.FreedSpace
import FloatLayout.Proofs.KeywordRadii
import FloatLayout.Proofs.LineSpace
import FloatLayout.Proofs.MarginClip
import FloatLayout.Proofs.NestedScopes
import FloatLayout.Proofs.OpenBands
import FloatLayout.Proofs.PixelReads
import FloatLayout.Proofs.ReferenceBoxes
import FloatLayout.Proofs.SegmentCrossing
import FloatLayout.Proofs.ShapeShift
import FloatLayout.Proofs.TrailingFloats
import FloatLayout.Proofs.Translation
import FloatLayout.Script.DamageScript
import FloatLayout.Script.LayoutScript
import FloatLayout.Script.PoolScript
import FloatLayout.Script.RegionScript
import FloatLayout.Script.Run
import FloatLayout.Script.ShapeScript
